import Masque.CapsuleProtocol.Base64

/-!
# The grammar of bare items

The bare items of a Structured Field, declaratively, and the sub-parsers that read them.
Each sub-parser is greedy; `Reads` says that it nevertheless takes every item of its
grammar that ends at a parameter boundary, and nothing else.
-/

namespace Masque.CapsuleProtocol

open Outcome Scan Utf8

/-! ## The grammar -/

/-- The byte is one of the characters. -/
def oneOf (chars : String) (c : UInt8) : Bool := chars.toList.any (ascii · == c)

/-- `[a-z*][a-z0-9_.*-]*` -/
def Key : List UInt8 → Prop :=
  Run (oneOf "abcdefghijklmnopqrstuvwxyz*") (oneOf "abcdefghijklmnopqrstuvwxyz0123456789_.*-")

/-- The token characters of HTTP. -/
def isTchar (c : UInt8) : Bool :=
  isAlphanumeric c || oneOf "!#$%&'*+-.^_`|~" c

/-- `[A-Za-z*]`, then token characters, colons and slashes. -/
def Token : List UInt8 → Prop :=
  Run (fun first => isAlphabetic first || first == ascii '*')
    fun c => isTchar c || c == ascii ':' || c == ascii '/'

/-- Between `lo` and `hi` digits. -/
def Digits (lo hi : ℕ) (digits : List UInt8) : Prop :=
  (∀ c ∈ digits, isDigit c = true) ∧ lo ≤ digits.length ∧ digits.length ≤ hi

/-- An optional minus sign. -/
def Sign (sign : List UInt8) : Prop :=
  sign = [] ∨ sign = [ascii '-']

def IntegerItem (tok : List UInt8) : Prop :=
  ∃ sign digits, Sign sign ∧ Digits 1 15 digits ∧ tok = sign ++ digits

def DecimalItem (tok : List UInt8) : Prop :=
  ∃ sign digits frac, Sign sign ∧ Digits 1 12 digits ∧ Digits 1 3 frac ∧
    tok = sign ++ digits ++ ascii '.' :: frac

/-- The units between the quotes of a string. -/
inductive StringUnits : List UInt8 → Prop
  | nil : StringUnits []
  | plain {c : UInt8} {units : List UInt8} (hlo : 0x20 ≤ c) (hhi : c ≤ 0x7e)
      (hquote : c ≠ ascii '"') (hescape : c ≠ ascii '\\') (h : StringUnits units) :
      StringUnits (c :: units)
  | escaped {c : UInt8} {units : List UInt8} (hc : c = ascii '"' ∨ c = ascii '\\')
      (h : StringUnits units) : StringUnits (ascii '\\' :: c :: units)

def StringItem (tok : List UInt8) : Prop :=
  ∃ units, StringUnits units ∧ tok = ascii '"' :: units ++ [ascii '"']

def BinaryItem (tok : List UInt8) : Prop :=
  ∃ content, isValidBase64 content = .ok true ∧ tok = ascii ':' :: content ++ [ascii ':']

/-- The digit of a boolean. -/
def flagDigit (flag : Bool) : UInt8 := if flag then ascii '1' else ascii '0'

def BooleanItem (tok : List UInt8) : Prop :=
  ∃ flag, tok = [ascii '?', flagDigit flag]

inductive BareItem (tok : List UInt8) : Prop
  | integer (h : IntegerItem tok)
  | decimal (h : DecimalItem tok)
  | string (h : StringItem tok)
  | token (h : Token tok)
  | binary (h : BinaryItem tok)
  | boolean (h : BooleanItem tok)

/-- Where a parameter may end: before the next one or at the end of the input. -/
def AtParameter (rest : List UInt8) : Prop :=
  ∀ c ∈ rest.head?, c = ascii ';'

/-- Where a key may end: before its value or at the end of its parameter. -/
def AtValue (rest : List UInt8) : Prop :=
  ∀ c ∈ rest.head?, c = ascii '=' ∨ c = ascii ';'

theorem AtParameter.stops {p : UInt8 → Bool} {rest : List UInt8} (h : AtParameter rest)
    (hp : p (ascii ';') = false) : Stops p rest := by
  intro c hc
  rw [h c hc, hp]

/-! ## Keys, tokens and booleans -/

theorem isKeyChar_eq : isKeyChar = oneOf "abcdefghijklmnopqrstuvwxyz0123456789_.*-" := by
  have hall : ∀ c, isKeyChar c = oneOf "abcdefghijklmnopqrstuvwxyz0123456789_.*-" c := by
    decide +kernel
  exact funext hall

/-- The characters a key begins with. -/
theorem isKeyLead_eq :
    (fun first => isLowercase first || first == ascii '*') =
      oneOf "abcdefghijklmnopqrstuvwxyz*" := by
  have hall : ∀ first, (isLowercase first || first == ascii '*') =
      oneOf "abcdefghijklmnopqrstuvwxyz*" first := by
    decide +kernel
  exact funext hall

theorem parseKey_reads : Reads parseKey Key AtValue := by
  have hread : Reads parseKey Key (Stops isKeyChar) := by
    unfold Key
    rw [← isKeyChar_eq, ← isKeyLead_eq]
    exact readRun_reads
  refine ⟨hread.sound, fun {tok rest} htok hrest => ?_, hread.total⟩
  refine hread.complete htok fun c hc => ?_
  rcases hrest c hc with rfl | rfl <;> decide

theorem isTokenChar_eq :
    isTokenChar = fun c => isTchar c || c == ascii ':' || c == ascii '/' := by
  funext c
  have hchars : "!#$%&'*+-.^_`|~:/".toList = "!#$%&'*+-.^_`|~".toList ++ [':', '/'] := by
    decide +kernel
  rw [isTokenChar, isTchar, oneOf, hchars, List.any_append, Bool.or_assoc, Bool.or_assoc,
    BEq.comm (a := c), BEq.comm (a := c), List.any_cons, List.any_cons, List.any_nil,
    Bool.or_false]

theorem parseToken_reads : Reads parseToken Token AtParameter := by
  have hread : Reads parseToken Token (Stops isTokenChar) := by
    unfold Token
    rw [← isTokenChar_eq]
    exact readRun_reads
  exact ⟨hread.sound, fun htok hrest => hread.complete htok (hrest.stops (by decide)),
    hread.total⟩

theorem parseBooleanValue_cons (first second : UInt8) (rest : List UInt8) :
    parseBooleanValue (first :: second :: rest) =
      if first = ascii '?' ∧ (second = ascii '0' ∨ second = ascii '1') then
        .ok ([first, second], rest)
      else .err () := by
  have hlen : ¬(first :: second :: rest).length < 2 := by simp
  unfold parseBooleanValue
  rw [if_neg hlen, index_cons_zero, ok_bind, index_cons_succ, index_cons_zero, ok_bind]
  by_cases hfirst : first = ascii '?'
  · by_cases hsecond : second = ascii '0' ∨ second = ascii '1'
    · rw [if_neg (not_not.mpr hfirst), if_pos hsecond, if_pos ⟨hfirst, hsecond⟩]
      have hsplit : (splitAt ([first, second] ++ rest) 2 : Parse) = _ := splitAt_append rfl rest
      exact hsplit
    · rw [if_neg (not_not.mpr hfirst), if_neg hsecond, if_neg (fun h => hsecond h.2)]
  · rw [if_pos hfirst, if_neg (fun h => hfirst h.1)]

theorem parseBooleanValue_reads : Reads parseBooleanValue BooleanItem AtParameter where
  sound := by
    intro input tok rest h
    rcases input with _ | ⟨first, _ | ⟨second, more⟩⟩
    · cases h
    · cases h
    · rw [parseBooleanValue_cons] at h
      split_ifs at h with hitem
      obtain ⟨rfl, hflag⟩ := hitem
      obtain ⟨rfl, rfl⟩ := Prod.mk.inj (ok.inj h)
      refine ⟨?_, rfl⟩
      rcases hflag with rfl | rfl
      · exact ⟨false, rfl⟩
      · exact ⟨true, rfl⟩
  complete := by
    rintro _ rest ⟨flag, rfl⟩ -
    cases flag with
    | false => exact parseBooleanValue_cons _ _ rest
    | true => exact parseBooleanValue_cons _ _ rest
  total := by
    intro first cs
    cases cs with
    | nil => simp [parseBooleanValue]
    | cons second rest =>
      rw [parseBooleanValue_cons]
      split_ifs <;> simp

/-! ## Numbers -/

/-- What `parseNumber` makes of the text behind the sign. -/
def readNumber (sign body : List UInt8) : Parse :=
  let digits := body.takeWhile isDigit
  let rest := body.dropWhile isDigit
  if digits.length = 0 ∨ 15 < digits.length then .err ()
  else if rest.head? = some (ascii '.') then
    if 12 < digits.length then .err ()
    else
      let frac := rest.tail.takeWhile isDigit
      if frac.length = 0 ∨ 3 < frac.length then .err ()
      else .ok (sign ++ digits ++ ascii '.' :: frac, rest.tail.dropWhile isDigit)
  else .ok (sign ++ digits, rest)

theorem parseNumber_append {sign body : List UInt8}
    (hsign : sign = [ascii '-'] ∨ sign = [] ∧ body.head? ≠ some (ascii '-')) :
    parseNumber (sign ++ body) = readNumber sign body := by
  have hi : (if (sign ++ body)[0]? = some (ascii '-') then 1 else 0) = sign.length := by
    rcases hsign with rfl | ⟨rfl, hbody⟩
    · rfl
    · rw [List.nil_append, ← List.head?_eq_getElem?, if_neg hbody]
      rfl
  have hscan := scanWhile_append isDigit sign body
  have hsplit := splitAt_scanWhile (ε := Unit) isDigit sign body
  have hat := getElem?_scanWhile isDigit sign body
  unfold parseNumber readNumber
  dsimp only
  rw [hi, hsplit, hat]
  by_cases hpoint : (body.dropWhile isDigit).head? = some (ascii '.')
  · obtain ⟨more, hmore⟩ : ∃ more, body.dropWhile isDigit = ascii '.' :: more :=
      ⟨_, (List.cons_head?_tail hpoint).symm⟩
    have hinput : sign ++ body = (sign ++ body.takeWhile isDigit ++ [ascii '.']) ++ more := by
      nth_rewrite 1 [← List.takeWhile_append_dropWhile (p := isDigit) (l := body)]
      rw [hmore]
      simp
    have hstart : (sign ++ body.takeWhile isDigit ++ [ascii '.']).length =
        (sign ++ body.takeWhile isDigit).length + 1 := by
      rw [List.length_append, List.length_singleton]
    have hscan' := scanWhile_append isDigit (sign ++ body.takeWhile isDigit ++ [ascii '.']) more
    have hsplit' := splitAt_scanWhile (ε := Unit) isDigit
      (sign ++ body.takeWhile isDigit ++ [ascii '.']) more
    rw [← hinput, hstart] at hscan' hsplit'
    rw [if_pos hpoint, if_pos hpoint, hscan, hsplit', hscan', hmore, List.length_append,
      Nat.add_sub_cancel_left, List.length_append, hstart, List.length_append,
      Nat.add_sub_cancel_left, List.append_assoc _ [ascii '.']]
    rfl
  · rw [if_neg hpoint, if_neg hpoint, hscan, List.length_append, Nat.add_sub_cancel_left]

/-- Every input is a sign, taken whenever it is there, and a body. -/
theorem exists_sign (input : List UInt8) :
    ∃ sign body, input = sign ++ body ∧
      (sign = [ascii '-'] ∨ sign = [] ∧ body.head? ≠ some (ascii '-')) := by
  by_cases h : input.head? = some (ascii '-')
  · exact ⟨[ascii '-'], input.tail, (List.cons_head?_tail h).symm, .inl rfl⟩
  · exact ⟨[], input, rfl, .inr ⟨rfl, h⟩⟩

/-- In front of a digit, a sign is there or is not. -/
theorem Sign.append_digits {sign digits : List UInt8} {lo hi : ℕ} (hsign : Sign sign)
    (hdigits : Digits (lo + 1) hi digits) (rest : List UInt8) :
    sign = [ascii '-'] ∨ sign = [] ∧ (digits ++ rest).head? ≠ some (ascii '-') := by
  rcases hsign with rfl | rfl
  · obtain ⟨hall, hlo, -⟩ := hdigits
    cases digits with
    | nil => simp at hlo
    | cons c cs =>
      refine .inr ⟨rfl, fun h => ?_⟩
      obtain rfl : c = ascii '-' := Option.some.inj h
      exact absurd (hall _ List.mem_cons_self) (by decide)
  · exact .inl rfl

theorem readNumber_sound {sign body tok rest : List UInt8} (hsign : Sign sign)
    (h : readNumber sign body = .ok (tok, rest)) :
    (IntegerItem tok ∨ DecimalItem tok) ∧ tok ++ rest = sign ++ body := by
  have hbody := List.takeWhile_append_dropWhile (p := isDigit) (l := body)
  have hdigits : ∀ c ∈ body.takeWhile isDigit, isDigit c = true :=
    fun c hc => List.mem_takeWhile_imp hc
  unfold readNumber at h
  dsimp only at h
  split_ifs at h with hlen hpoint hlong hfrac
  · obtain ⟨rfl, rfl⟩ := Prod.mk.inj (ok.inj h)
    have hrest := List.cons_head?_tail hpoint
    have hmore := List.takeWhile_append_dropWhile (p := isDigit)
      (l := (body.dropWhile isDigit).tail)
    refine ⟨.inr ⟨sign, _, _, hsign, ⟨hdigits, by omega, by omega⟩,
      ⟨fun c hc => List.mem_takeWhile_imp hc, by omega, by omega⟩, rfl⟩, ?_⟩
    rw [List.append_assoc, List.cons_append, hmore, hrest, List.append_assoc, hbody]
  · obtain ⟨rfl, rfl⟩ := Prod.mk.inj (ok.inj h)
    refine ⟨.inl ⟨sign, _, hsign, ⟨hdigits, by omega, by omega⟩, rfl⟩, ?_⟩
    rw [List.append_assoc, hbody]

theorem readNumber_integer {sign digits rest : List UInt8} (hdigits : Digits 1 15 digits)
    (hrest : AtParameter rest) : readNumber sign (digits ++ rest) = .ok (sign ++ digits, rest) := by
  obtain ⟨hall, hlo, hhi⟩ := hdigits
  have hstops : Stops isDigit rest := hrest.stops (by decide)
  have hpoint : rest.head? ≠ some (ascii '.') := fun h =>
    absurd (hrest _ h) (by decide)
  unfold readNumber
  rw [takeWhile_append_of_stops hall hstops, dropWhile_append_of_stops hall hstops]
  rw [if_neg (by omega), if_neg hpoint]

theorem readNumber_decimal {sign digits frac rest : List UInt8} (hdigits : Digits 1 12 digits)
    (hfrac : Digits 1 3 frac) (hrest : AtParameter rest) :
    readNumber sign (digits ++ ascii '.' :: (frac ++ rest)) =
      .ok (sign ++ digits ++ ascii '.' :: frac, rest) := by
  obtain ⟨hall, hlo, hhi⟩ := hdigits
  obtain ⟨hall', hlo', hhi'⟩ := hfrac
  have hpoint : Stops isDigit (ascii '.' :: (frac ++ rest)) := by
    intro c hc
    obtain rfl := Option.some.inj hc
    decide
  have hstops : Stops isDigit rest := hrest.stops (by decide)
  unfold readNumber
  rw [takeWhile_append_of_stops hall hpoint, dropWhile_append_of_stops hall hpoint]
  rw [if_neg (by omega), if_pos List.head?_cons, if_neg (by omega), List.tail_cons,
    takeWhile_append_of_stops hall' hstops, dropWhile_append_of_stops hall' hstops]
  exact if_neg (by omega)

theorem parseNumber_reads :
    Reads parseNumber (fun tok => IntegerItem tok ∨ DecimalItem tok) AtParameter where
  sound := by
    intro input tok rest h
    obtain ⟨sign, body, rfl, hsign⟩ := exists_sign input
    rw [parseNumber_append hsign] at h
    exact readNumber_sound (hsign.symm.imp_left And.left) h
  complete := by
    rintro _ rest (⟨sign, digits, hsign, hdigits, rfl⟩ |
      ⟨sign, digits, frac, hsign, hdigits, hfrac, rfl⟩) hrest
    · rw [List.append_assoc, parseNumber_append (hsign.append_digits hdigits rest)]
      exact readNumber_integer hdigits hrest
    · rw [List.append_assoc, List.append_assoc, List.cons_append,
        parseNumber_append (hsign.append_digits hdigits _)]
      exact readNumber_decimal hdigits hfrac hrest
  total := by
    intro c cs
    obtain ⟨sign, body, hinput, hsign⟩ := exists_sign (c :: cs)
    rw [hinput, parseNumber_append hsign]
    unfold readNumber
    dsimp only
    split_ifs <;> simp

/-! ## Strings -/

/-- What is no control character and not beyond ASCII may stand in a string. -/
theorem not_control_iff (c : UInt8) : ¬(c ≤ 0x1f ∨ 0x7f ≤ c) ↔ 0x20 ≤ c ∧ c ≤ 0x7e := by
  revert c
  decide +kernel

theorem parseStringFrom_sound {input tok rest : List UInt8} {i : ℕ}
    (h : parseStringFrom input i = .ok (tok, rest)) :
    ∃ units, StringUnits units ∧ input.drop i = units ++ ascii '"' :: rest := by
  induction i using parseStringFrom.induct input with
  | case1 i hi hescape hend => simp [parseStringFrom, hi, hescape, hend] at h
  | case2 i hi hescape hend ih =>
    rw [parseStringFrom, dif_pos hi, if_pos hescape, if_neg hend] at h
    obtain ⟨next, hnext, h⟩ := bind_eq_ok.mp h
    split_ifs at h with hbad
    obtain ⟨units, hunits, hdrop⟩ := ih h
    obtain ⟨hi', hnext⟩ := List.getElem?_eq_some_iff.mp (index_eq_ok.mp hnext)
    refine ⟨ascii '\\' :: next :: units, .escaped (by tauto) hunits, ?_⟩
    rw [List.drop_eq_getElem_cons hi, hescape, List.drop_eq_getElem_cons hi', hnext, hdrop]
    rfl
  | case3 i hi hescape hquote =>
    rw [parseStringFrom, dif_pos hi, if_neg hescape, if_pos hquote, splitAt_eq_ok hi] at h
    obtain ⟨-, rfl⟩ := Prod.mk.inj (ok.inj h)
    refine ⟨[], .nil, ?_⟩
    rw [List.drop_eq_getElem_cons hi, hquote]
    rfl
  | case4 i hi hescape hquote hctrl =>
    rw [parseStringFrom, dif_pos hi, if_neg hescape, if_neg hquote, if_pos hctrl] at h
    cases h
  | case5 i hi hescape hquote hplain ih =>
    rw [parseStringFrom, dif_pos hi, if_neg hescape, if_neg hquote, if_neg hplain] at h
    obtain ⟨units, hunits, hdrop⟩ := ih h
    obtain ⟨hlo, hhi⟩ := (not_control_iff _).mp hplain
    refine ⟨input[i] :: units, .plain hlo hhi hquote hescape hunits, ?_⟩
    rw [List.drop_eq_getElem_cons hi, hdrop]
    rfl
  | case6 i hi => simp [parseStringFrom, hi] at h

/-- One round of `parseStringFrom` behind the text `pre`. -/
theorem parseStringFrom_append (pre cs : List UInt8) (c : UInt8) :
    parseStringFrom (pre ++ c :: cs) pre.length =
      if c = ascii '\\' then
        match cs with
        | [] => .err ()
        | next :: _ =>
          if next ≠ ascii '"' ∧ next ≠ ascii '\\' then .err ()
          else parseStringFrom (pre ++ c :: cs) (pre.length + 2)
      else if c = ascii '"' then .ok (pre ++ [c], cs)
      else if c ≤ 0x1f ∨ 0x7f ≤ c then .err ()
      else parseStringFrom (pre ++ c :: cs) (pre.length + 1) := by
  have hi : pre.length < (pre ++ c :: cs).length := by simp
  have hsplit : (splitAt (pre ++ c :: cs) (pre.length + 1) : Parse) = .ok (pre ++ [c], cs) := by
    rw [List.append_cons]
    exact splitAt_append (by simp) cs
  rw [parseStringFrom, dif_pos hi, List.getElem_append_right le_rfl, hsplit]
  simp only [Nat.sub_self, List.getElem_cons_zero]
  cases cs with
  | nil => simp
  | cons next cs =>
    have hnext : (index (pre ++ c :: next :: cs) (pre.length + 1) : Outcome Unit _) =
        .ok next := by
      rw [index_eq_ok, List.getElem?_append_right (by omega), Nat.add_sub_cancel_left]
      rfl
    rw [hnext]
    simp

theorem parseStringFrom_complete {units : List UInt8} (h : StringUnits units)
    (pre rest : List UInt8) :
    parseStringFrom (pre ++ (units ++ ascii '"' :: rest)) pre.length =
      .ok (pre ++ (units ++ [ascii '"']), rest) := by
  induction h generalizing pre with
  | nil =>
    rw [List.nil_append, parseStringFrom_append, if_neg (by decide), if_pos rfl]
    rfl
  | @plain c units hlo hhi hquote hescape _ ih =>
    have hplain := (not_control_iff c).mpr ⟨hlo, hhi⟩
    have := ih (pre ++ [c])
    rw [List.cons_append, parseStringFrom_append, if_neg hescape, if_neg hquote, if_neg hplain]
    simpa using this
  | @escaped c units hc _ ih =>
    have := ih (pre ++ [ascii '\\', c])
    rw [List.cons_append, List.cons_append, parseStringFrom_append, if_pos rfl]
    dsimp only
    rw [if_neg (by tauto)]
    simpa using this

theorem parseStringFrom_total (input : List UInt8) (i : ℕ) :
    parseStringFrom input i ≠ .panic := by
  induction i using parseStringFrom.induct input with
  | case1 i hi hescape hend => simp [parseStringFrom, hi, hescape, hend]
  | case2 i hi hescape hend ih =>
    have hnext : (index input (i + 1) : Outcome Unit _) = .ok input[i + 1] :=
      index_eq_ok.mpr (List.getElem?_eq_getElem (by omega))
    rw [parseStringFrom, dif_pos hi, if_pos hescape, if_neg hend, hnext, ok_bind]
    split_ifs
    · simp
    · exact ih
  | case3 i hi hescape hquote =>
    rw [parseStringFrom, dif_pos hi, if_neg hescape, if_pos hquote, splitAt_eq_ok hi]
    simp
  | case4 i hi hescape hquote hctrl =>
    rw [parseStringFrom, dif_pos hi, if_neg hescape, if_neg hquote, if_pos hctrl]
    simp
  | case5 i hi hescape hquote hplain ih =>
    rw [parseStringFrom, dif_pos hi, if_neg hescape, if_neg hquote, if_neg hplain]
    exact ih
  | case6 i hi => simp [parseStringFrom, hi]

theorem parseString_reads : Reads parseString StringItem AtParameter where
  sound := by
    intro input tok rest h
    have hinput := append_of_parseString h
    refine ⟨?_, hinput⟩
    obtain ⟨first, hfirst, h⟩ := bind_eq_ok.mp h
    split_ifs at h with hquote
    obtain ⟨units, hunits, hdrop⟩ := parseStringFrom_sound h
    have hitem : tok ++ rest = (ascii '"' :: units ++ [ascii '"']) ++ rest := by
      cases input with
      | nil => cases hfirst
      | cons c cs =>
        obtain rfl : c = first := ok.inj hfirst
        rw [hinput, not_not.mp hquote, List.append_assoc, List.cons_append]
        exact congrArg _ hdrop
    exact ⟨units, hunits, List.append_cancel_right hitem⟩
  complete := by
    rintro _ rest ⟨units, hunits, rfl⟩ -
    have := parseStringFrom_complete hunits [ascii '"'] rest
    unfold parseString
    simpa using this
  total := by
    intro c cs
    unfold parseString
    rw [index_cons_zero, ok_bind]
    split_ifs
    · simp
    · exact parseStringFrom_total _ _

/-! ## Binaries -/

theorem parseBinaryFrom_sound {input tok rest : List UInt8} {i : ℕ}
    (h : parseBinaryFrom input i = .ok (tok, rest)) :
    ∃ j, i ≤ j ∧ isValidBase64 ((input.take j).drop 1) = .ok true ∧
      input.drop j = ascii ':' :: rest := by
  induction i using parseBinaryFrom.induct input with
  | case1 i hi hcolon =>
    rw [parseBinaryFrom, dif_pos hi, if_pos hcolon] at h
    obtain ⟨content, hcontent, h⟩ := bind_eq_ok.mp h
    obtain ⟨valid, hvalid, h⟩ := bind_eq_ok.mp h
    unfold slice at hcontent
    split_ifs at hcontent
    obtain rfl := ok.inj hcontent
    cases valid with
    | false => cases h
    | true =>
      rw [Bool.not_true, if_neg Bool.false_ne_true, splitAt_eq_ok hi] at h
      obtain ⟨-, rfl⟩ := Prod.mk.inj (ok.inj h)
      refine ⟨i, le_rfl, hvalid, ?_⟩
      rw [List.drop_eq_getElem_cons hi, hcolon]
  | case2 i hi hcolon ih =>
    rw [parseBinaryFrom, dif_pos hi, if_neg hcolon] at h
    obtain ⟨j, hj, hvalid, hdrop⟩ := ih h
    exact ⟨j, by omega, hvalid, hdrop⟩
  | case3 i hi => simp [parseBinaryFrom, hi] at h

theorem parseBinaryFrom_complete {more : List UInt8} (pre rest : List UInt8)
    (hvalid : isValidBase64 (pre ++ more) = .ok true) (hmore : ascii ':' ∉ more) :
    parseBinaryFrom (ascii ':' :: pre ++ (more ++ ascii ':' :: rest)) (pre.length + 1) =
      .ok (ascii ':' :: (pre ++ more) ++ [ascii ':'], rest) := by
  induction more generalizing pre with
  | nil =>
    have hi : pre.length + 1 < (ascii ':' :: pre ++ ([] ++ ascii ':' :: rest)).length := by simp
    have hcolon : (ascii ':' :: pre ++ ([] ++ ascii ':' :: rest))[pre.length + 1] = ascii ':' := by
      simp
    have hslice : (slice (ascii ':' :: pre ++ ([] ++ ascii ':' :: rest)) 1 (pre.length + 1) :
        Outcome Unit _) = .ok pre := by
      rw [slice_eq_ok (by omega) (by omega)]
      simp
    rw [parseBinaryFrom, dif_pos hi, if_pos hcolon, hslice, ok_bind]
    rw [List.append_nil] at hvalid ⊢
    rw [hvalid, ok_bind, Bool.not_true, if_neg Bool.false_ne_true, List.nil_append,
      List.append_cons _ (ascii ':') rest]
    exact splitAt_append (by simp) rest
  | cons c more ih =>
    rw [List.mem_cons, not_or] at hmore
    have hi : pre.length + 1 < (ascii ':' :: pre ++ (c :: more ++ ascii ':' :: rest)).length := by
      simp
    have hc : (ascii ':' :: pre ++ (c :: more ++ ascii ':' :: rest))[pre.length + 1] = c := by
      simp
    have := ih (pre ++ [c]) (by simpa using hvalid) hmore.2
    rw [parseBinaryFrom, dif_pos hi, if_neg (by rw [hc]; exact Ne.symm hmore.1)]
    simpa using this

theorem parseBinaryFrom_total (input : List UInt8) {i : ℕ} (h1 : 1 ≤ i) :
    parseBinaryFrom input i ≠ .panic := by
  induction i using parseBinaryFrom.induct input with
  | case1 i hi hcolon =>
    rw [parseBinaryFrom, dif_pos hi, if_pos hcolon, slice_eq_ok h1 hi.le, ok_bind]
    refine bind_ne_panic (isValidBase64_total _) ?_
    intro valid _
    rw [splitAt_eq_ok hi]
    split_ifs
    · exact err_ne_panic ()
    · exact ok_ne_panic _
  | case2 i hi hcolon ih =>
    rw [parseBinaryFrom, dif_pos hi, if_neg hcolon]
    exact ih (by omega)
  | case3 i hi => simp [parseBinaryFrom, hi]

theorem parseBinary_reads : Reads parseBinary BinaryItem AtParameter where
  sound := by
    intro input tok rest h
    have hinput := append_of_parseBinary h
    refine ⟨?_, hinput⟩
    obtain ⟨first, hfirst, h⟩ := bind_eq_ok.mp h
    split_ifs at h with hcolon
    obtain ⟨j, hj, hvalid, hdrop⟩ := parseBinaryFrom_sound h
    have hitem : tok ++ rest =
        (ascii ':' :: (input.take j).drop 1 ++ [ascii ':']) ++ rest := by
      cases input with
      | nil => cases hfirst
      | cons c cs =>
        obtain rfl : c = first := ok.inj hfirst
        obtain ⟨j, rfl⟩ : ∃ k, j = k + 1 := ⟨j - 1, by omega⟩
        rw [hinput, not_not.mp hcolon, List.take_succ_cons, List.drop_succ_cons,
          List.drop_zero, List.append_assoc, List.singleton_append, ← hdrop, List.cons_append,
          List.drop_succ_cons, List.take_append_drop]
    exact ⟨_, hvalid, List.append_cancel_right hitem⟩
  complete := by
    rintro _ rest ⟨content, hvalid, rfl⟩ -
    have := parseBinaryFrom_complete [] rest hvalid (colon_notMem_of_valid hvalid)
    unfold parseBinary
    simpa using this
  total := by
    intro c cs
    unfold parseBinary
    rw [index_cons_zero, ok_bind]
    split_ifs
    · simp
    · exact parseBinaryFrom_total _ le_rfl

/-! ## Bare items -/

/-- The first byte of a number. -/
theorem number_leads {tok : List UInt8} (h : IntegerItem tok ∨ DecimalItem tok) :
    ∃ c cs, tok = c :: cs ∧ (c = ascii '-' ∨ isDigit c = true) := by
  obtain ⟨sign, digits, more, hsign, ⟨hall, hlo⟩, rfl⟩ :
      ∃ sign digits more, Sign sign ∧ ((∀ c ∈ digits, isDigit c = true) ∧ 1 ≤ digits.length) ∧
        tok = sign ++ (digits ++ more) := by
    rcases h with ⟨sign, digits, hsign, ⟨hall, hlo, -⟩, rfl⟩ |
      ⟨sign, digits, frac, hsign, ⟨hall, hlo, -⟩, -, rfl⟩
    · exact ⟨sign, digits, [], hsign, ⟨hall, hlo⟩, by simp⟩
    · exact ⟨sign, digits, _, hsign, ⟨hall, hlo⟩, List.append_assoc ..⟩
  rcases hsign with rfl | rfl
  · cases digits with
    | nil => simp at hlo
    | cons c digits => exact ⟨c, _, rfl, .inr (hall c List.mem_cons_self)⟩
  · exact ⟨_, _, rfl, .inl rfl⟩

/-- A token begins like no other bare item. -/
theorem token_lead {c : UInt8} (h : isAlphabetic c = true ∨ c = ascii '*') :
    ¬(c = ascii '-' ∨ isDigit c = true) ∧ c ≠ ascii '"' ∧ c ≠ ascii ':' ∧ c ≠ ascii '?' := by
  rcases h with h | rfl
  · refine ⟨?_, ?_, ?_, ?_⟩
    · rintro (rfl | hdigit)
      · exact absurd h (by decide)
      · simp only [isAlphabetic, isLowercase, isDigit, Bool.or_eq_true, Bool.and_eq_true,
          decide_eq_true_eq, UInt8.le_iff_toNat_le] at h hdigit
        simp [ascii] at h hdigit
        omega
    all_goals
      rintro rfl
      exact absurd h (by decide)
  · decide

theorem parseBareItem_reads : Reads parseBareItem BareItem AtParameter where
  sound := by
    intro input tok rest h
    refine ⟨?_, append_of_parseBareItem h⟩
    cases input with
    | nil => cases h
    | cons first cs =>
      unfold parseBareItem at h
      dsimp only at h
      split_ifs at h
      · exact (parseNumber_reads.sound h).1.elim .integer .decimal
      · exact .string (parseString_reads.sound h).1
      · exact .binary (parseBinary_reads.sound h).1
      · exact .boolean (parseBooleanValue_reads.sound h).1
      · exact .token (parseToken_reads.sound h).1
  complete := by
    intro tok rest htok hrest
    have hnumber (h : IntegerItem tok ∨ DecimalItem tok) :
        parseBareItem (tok ++ rest) = .ok (tok, rest) := by
      have hread := parseNumber_reads.complete h hrest
      obtain ⟨c, cs, rfl, hc⟩ := number_leads h
      exact (if_pos hc).trans hread
    cases htok with
    | integer h => exact hnumber (.inl h)
    | decimal h => exact hnumber (.inr h)
    | string h =>
      have hread := parseString_reads.complete h hrest
      obtain ⟨units, -, rfl⟩ := h
      exact hread
    | binary h =>
      have hread := parseBinary_reads.complete h hrest
      obtain ⟨content, -, rfl⟩ := h
      exact hread
    | boolean h =>
      have hread := parseBooleanValue_reads.complete h hrest
      obtain ⟨flag, rfl⟩ := h
      exact hread
    | token h =>
      have hread := parseToken_reads.complete h hrest
      obtain ⟨first, cs, rfl, hfirst, -⟩ := h
      have hlead : isAlphabetic first = true ∨ first = ascii '*' := by simpa using hfirst
      obtain ⟨hnum, hquote, hcolon, hmark⟩ := token_lead hlead
      rw [List.cons_append] at hread ⊢
      unfold parseBareItem
      dsimp only
      rw [if_neg hnum, if_neg hquote, if_neg hcolon, if_neg hmark, if_pos hlead, hread]
  total := by
    intro c cs
    unfold parseBareItem
    dsimp only
    split_ifs
    · exact parseNumber_reads.total c cs
    · exact parseString_reads.total c cs
    · exact parseBinary_reads.total c cs
    · exact parseBooleanValue_reads.total c cs
    · exact parseToken_reads.total c cs
    · simp

end Masque.CapsuleProtocol

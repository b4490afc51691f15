/-
How written text is taken apart.

# Readings

The lexer keeps places, which the grammar never looks at. `scan` is what
is left of the lexemes without them, and one equation takes the front off
a text (`scan_cons`). Every token in it stands in the text as a word
(`exists_matches_of_mem_scan`).

# Lexical tokens

The type of tokens admits any name and any number. A token that is read
has a name of ASCII letters, digits and underscores or a number that can
be held (`lexical_of_mem_scan`).

# Detached text

A name or a numeral goes on as long as it can, so whether a text is read
as it was written depends on what follows. `Reads text ts` says that the
text is read as `ts` before everything that cannot go on a name or a
numeral, and such texts can be put one behind the other
(`Reads.append`). Names, decimal numerals and hexadecimal numerals are
shown to be read as one token each.
-/
import AvrFirmware.Proofs.Assembly.Patterns

namespace AvrFirmware

namespace Assembly

-- ============================================================== readings

/-- A lexeme without its place: a token, or the characters that are none. -/
def Lexeme.reading (l : Lexeme) : Except (List Char) Token :=
  match l.token with
  | some t => .ok t
  | none => .error l.chars

/-- What stands in a text, without places. -/
def scan (text : List Char) : List (Except (List Char) Token) :=
  (lexemesFrom [] 0 text).map Lexeme.reading

/-- What a piece of some characters leaves. -/
def Piece.readings (chars : List Char) :
    Piece → List (Except (List Char) Token)
  | skipped => []
  | token t => [.ok t]
  | unmatched => [.error chars]

/-- One step of the lexer: at most one lexeme, and on behind it. -/
theorem lexemesFrom_cons (done : List Lexeme) (start : Nat) (c : Char)
    (cs : List Char) :
    ∃ new stop, new.reverse.map Lexeme.reading
        = (munch c cs).1.readings (c :: cs.take (munch c cs).2)
      ∧ lexemesFrom done start (c :: cs)
        = lexemesFrom (new ++ done) stop (cs.drop (munch c cs).2) := by
  rw [lexemesFrom]
  split
  · next h => exact ⟨[], _, by rw [h]; rfl, rfl⟩
  · next t h => exact ⟨[_], _, by rw [h]; rfl, rfl⟩
  · next h => exact ⟨[_], _, by rw [h]; rfl, rfl⟩

/-- Induction along the pieces of a text. -/
theorem pieces_induction {P : List Char → Prop} (nil : P [])
    (cons : ∀ c cs, P (cs.drop (munch c cs).2) → P (c :: cs))
    (text : List Char) : P text := by
  induction hlen : text.length using Nat.strong_induction_on
      generalizing text with
  | _ n ih =>
      cases text with
      | nil => exact nil
      | cons c cs =>
          have hshort : (cs.drop (munch c cs).2).length < n := by
            rw [← hlen, List.length_drop, List.length_cons]
            omega
          exact cons c cs (ih _ hshort _ rfl)

/-- What was found before and where the text stands make no difference to its
readings. -/
theorem map_reading_lexemesFrom (done : List Lexeme) (start : Nat)
    (text : List Char) :
    (lexemesFrom done start text).map Lexeme.reading
      = done.reverse.map Lexeme.reading ++ scan text := by
  induction text using pieces_induction generalizing done start with
  | nil => simp [scan, lexemesFrom]
  | cons c cs ih =>
      obtain ⟨new, stop, hnew, hstep⟩ := lexemesFrom_cons done start c cs
      obtain ⟨new', stop', hnew', hstep'⟩ := lexemesFrom_cons [] 0 c cs
      rw [scan, hstep, hstep', ih, ih, List.append_nil, List.reverse_append,
        List.map_append, hnew, hnew', List.append_assoc]

@[simp]
theorem scan_nil : scan [] = [] := by
  simp [scan, lexemesFrom]

/-- The front piece of a text, then the readings of what is left. -/
theorem scan_cons (c : Char) (cs : List Char) :
    scan (c :: cs) = (munch c cs).1.readings (c :: cs.take (munch c cs).2)
      ++ scan (cs.drop (munch c cs).2) := by
  obtain ⟨new, stop, hnew, hstep⟩ := lexemesFrom_cons [] 0 c cs
  rw [scan, hstep, map_reading_lexemesFrom, List.append_nil, hnew]

/-- Every token that is read stands in the text as a word. -/
theorem exists_matches_of_mem_scan {text : List Char} {t : Token}
    (h : .ok t ∈ scan text) :
    ∃ word, word <:+: text ∧ Matches word (.token t) := by
  induction text using pieces_induction with
  | nil =>
      rw [scan_nil] at h
      cases h
  | cons c cs ih =>
      rw [scan_cons, List.mem_append] at h
      rcases h with hpiece | hrest
      · have htoken : (munch c cs).1 = .token t := by
          generalize (munch c cs).1 = piece at hpiece
          cases piece with
          | skipped => cases hpiece
          | token t' =>
              cases List.mem_singleton.mp hpiece
              rfl
          | unmatched => cases List.mem_singleton.mp hpiece
        have hfront : c :: cs.take (munch c cs).2 <+: c :: cs :=
          List.cons_prefix_cons.mpr ⟨rfl, List.take_prefix _ _⟩
        exact ⟨_, hfront.isInfix, matches_of_munch htoken⟩
      · obtain ⟨word, hword, hmatch⟩ := ih hrest
        have hback : cs.drop (munch c cs).2 <:+ c :: cs :=
          (List.drop_suffix _ _).trans (List.suffix_cons c cs)
        exact ⟨word, hword.trans hback.isInfix, hmatch⟩

-- ========================================================= detached text

/-- What cannot go on a name or a numeral. -/
def Detached (rest : List Char) : Prop :=
  ∀ c ∈ rest.head?, isNameChar c = false

/-- A text is read as some tokens before everything detached. -/
def Reads (text : List Char) (ts : List Token) : Prop :=
  ∀ rest, Detached rest → scan (text ++ rest) = ts.map .ok ++ scan rest

theorem detached_nil : Detached [] := by
  rintro c ⟨⟩

/-- What starts with a character of no name is detached. -/
theorem detached_cons {c : Char} {cs : List Char} (hc : isNameChar c = false) :
    Detached (c :: cs) := by
  rintro c' ⟨⟩
  exact hc

/-- Detached text stays detached with more behind it. -/
theorem Detached.append {text rest : List Char} (htext : Detached text)
    (hrest : Detached rest) :
    Detached (text ++ rest) := by
  cases text with
  | nil => exact hrest
  | cons c cs => exact detached_cons (htext c rfl)

/-- Texts can be put one behind the other if the second is detached. -/
theorem Reads.append {text text' : List Char} {ts ts' : List Token}
    (h : Reads text ts) (h' : Reads text' ts') (hdetached : Detached text') :
    Reads (text ++ text') (ts ++ ts') := by
  intro rest hrest
  rw [List.append_assoc, h _ (hdetached.append hrest), h' _ hrest,
    List.map_append, List.append_assoc]

/-- A sign is read by itself, whatever follows. -/
theorem Reads.cons {c : Char} {t : Token} {text : List Char} {ts : List Token}
    (hc : munch c = fun _ => (.token t, 0)) (h : Reads text ts) :
    Reads (c :: text) (t :: ts) := by
  intro rest hrest
  rw [List.cons_append, scan_cons, hc]
  exact congrArg (.ok t :: ·) (h rest hrest)

theorem reads_nil : Reads [] [] := by
  intro rest _
  rfl

/-- A line feed is read by itself, whatever follows. -/
theorem scan_newline (cs : List Char) :
    scan ('\n' :: cs) = .ok .newline :: scan cs :=
  scan_cons '\n' cs

/-- A dot before a sign is read by itself. -/
theorem Reads.dot {c : Char} {text : List Char} {ts : List Token}
    (hc : isNameStart c = false) (h : Reads (c :: text) ts) :
    Reads ('.' :: c :: text) (.dot :: ts) := by
  intro rest hrest
  have hmunch : munch '.' (c :: (text ++ rest)) = (.token .dot, 0) := by
    refine munch_sign (by decide) fun _ d hd => ?_
    rwa [← Option.some.inj hd]
  rw [List.cons_append, List.cons_append, scan_cons, hmunch]
  exact congrArg (.ok .dot :: ·) (h rest hrest)

/-- A space is passed over, alone or with others behind it. -/
theorem scan_space (cs : List Char) : scan (' ' :: cs) = scan cs := by
  rw [scan_cons, munch_space rfl]
  cases cs with
  | nil => rfl
  | cons c cs =>
      by_cases hc : isSpace c = true
      · rw [scan_cons c, munch_space hc, List.takeWhile_cons_of_pos hc]
        rfl
      · rw [List.takeWhile_cons_of_neg hc]
        rfl

/-- Spaces in front are not read. -/
theorem Reads.space {text : List Char} {ts : List Token} (h : Reads text ts) :
    Reads (' ' :: text) ts := by
  intro rest hrest
  rw [List.cons_append, scan_space]
  exact h rest hrest

-- ================================================================= names

/-- Names, as the lexer takes them. -/
def isName (s : String) : Bool :=
  match s.toList with
  | [] => false
  | c :: cs => isNameStart c && cs.all isNameChar

theorem isName_ofList {c : Char} {cs : List Char} (hc : isNameStart c = true)
    (hcs : ∀ d ∈ cs, isNameChar d = true) :
    isName (String.ofList (c :: cs)) = true := by
  rw [isName, String.toList_ofList]
  exact Bool.and_eq_true_iff.mpr ⟨hc, List.all_eq_true.mpr hcs⟩

theorem isNameChar_of_isNameStart {c : Char} (hc : isNameStart c = true) :
    isNameChar c = true := by
  rw [isNameChar, hc, Bool.true_or]

/-- Characters of names are ASCII. -/
theorem toNat_lt_of_isNameChar {c : Char} (hc : isNameChar c = true) :
    c.toNat < 128 := by
  have hlower : c ≤ 'z' → c.toNat ≤ 122 := fun h => h
  have hupper : c ≤ 'Z' → c.toNat ≤ 90 := fun h => h
  have hdigit : c ≤ '9' → c.toNat ≤ 57 := fun h => h
  simp only [isNameChar, isNameStart, Bool.or_eq_true, Bool.and_eq_true,
    decide_eq_true_eq, beq_iff_eq] at hc
  rcases hc with ((hc | hc) | rfl) | hc
  · exact (hlower hc.2).trans_lt (by decide)
  · exact (hupper hc.2).trans_lt (by decide)
  · decide
  · exact (hdigit hc.2).trans_lt (by decide)

/-- Names are ASCII, so their case is a matter of ASCII letters. -/
theorem ascii_of_isName {s : String} (h : isName s = true) :
    ∀ c ∈ s.toList, c.toNat < 128 := by
  intro c hc
  unfold isName at h
  split at h
  · cases h
  · next first cs hs =>
      rw [Bool.and_eq_true, List.all_eq_true] at h
      rw [hs, List.mem_cons] at hc
      refine toNat_lt_of_isNameChar ?_
      rcases hc with rfl | hc
      · exact isNameChar_of_isNameStart h.1
      · exact h.2 c hc

/-- What the lexer promises of a token: names are names, and numerals can be
held. -/
def Token.Lexical : Token → Prop
  | identifier name => isName name = true
  | directive name => isName name = true
  | number _ n => n ≤ numeralLimit
  | _ => True

/-- Reading digits never goes past the limit. -/
theorem le_of_readFrom {r : Radix} {limit n m : Nat} {cs : List Char}
    (hn : n ≤ limit) (h : Numeral.readFrom r limit n cs = .ok m) :
    m ≤ limit := by
  fun_induction Numeral.readFrom r limit n cs with
  | case1 n =>
      cases h
      exact hn
  | case2 n c cs hnone => cases h
  | case3 n c cs d hd hle ih => exact ih hle h
  | case4 n c cs d hd hlarge => cases h

/-- A numeral that is a token is a number that can be held. -/
theorem exists_number_of_numeral {r : Radix} {digits : List Char} {t : Token}
    (h : numeral r digits = .token t) :
    ∃ n ≤ numeralLimit, t = .number r n := by
  unfold numeral at h
  split at h
  · next n hn =>
      cases h
      exact ⟨n, le_of_readFrom (Nat.zero_le _) hn, rfl⟩
  · cases h

/-- Every word that is a token keeps the promise, pattern by pattern. -/
theorem Matches.lexical {word : List Char} {t : Token}
    (h : Matches word (.token t)) : t.Lexical := by
  generalize hpiece : Piece.token t = piece at h
  cases h with
  | blanks hc hcs => cases hpiece
  | comment hcs => cases hpiece
  | slashes hcs => cases hpiece
  | name hc hcs =>
      cases hpiece
      exact isName_ofList hc hcs
  | decimal hc hcs =>
      obtain ⟨n, hn, rfl⟩ := exists_number_of_numeral hpiece.symm
      exact hn
  | based hmark hc hcs =>
      obtain ⟨n, hn, rfl⟩ := exists_number_of_numeral hpiece.symm
      exact hn
  | directive hc hcs =>
      cases hpiece
      exact isName_ofList hc hcs
  | sign hsign =>
      cases hpiece
      have hsigns : ∀ e ∈ signs, e.2.Lexical := by
        simp [signs, Token.Lexical]
      exact hsigns _ hsign

/-- Every token that is read keeps the lexer's promise. -/
theorem lexical_of_mem_scan {text : List Char} {t : Token}
    (h : .ok t ∈ scan text) : t.Lexical := by
  obtain ⟨word, -, hmatch⟩ := exists_matches_of_mem_scan h
  exact hmatch.lexical

/-- Characters of one kind are taken up to the first of another kind. -/
theorem takeWhile_append_of_head {p : Char → Bool} {cs rest : List Char}
    (hcs : ∀ c ∈ cs, p c = true) (hrest : ∀ c ∈ rest.head?, p c = false) :
    (cs ++ rest).takeWhile p = cs := by
  have hnone : rest.takeWhile p = [] := by
    cases rest with
    | nil => rfl
    | cons c cs => rw [List.takeWhile_cons_of_neg (by simp [hrest c rfl])]
  rw [List.takeWhile_append_of_pos hcs, hnone, List.append_nil]

/-- A name is read as an identifier. -/
theorem reads_name {s : String} (h : isName s = true) :
    Reads s.toList [.identifier s] := by
  intro rest hrest
  unfold isName at h
  split at h
  · cases h
  · next c cs hs =>
      rw [Bool.and_eq_true, List.all_eq_true] at h
      have htake : (cs ++ rest).takeWhile isNameChar = cs :=
        takeWhile_append_of_head h.2 hrest
      have hmunch : munch c (cs ++ rest)
          = (.token (.identifier s), cs.length) := by
        rw [munch_name h.1, htake, ← hs, String.ofList_toList]
      rw [hs, List.cons_append, scan_cons, hmunch]
      simp [Piece.readings]

-- ============================================================== numerals

open Numeral

/-- A digit's character has its value in every base that has the digit. -/
theorem digitValue?_upperDigit (r : Radix) :
    ∀ d < r.base, digitValue? r (upperDigit d) = some d := by
  cases r <;> decide

theorem isDigit_upperDigit {r : Radix} {d : Nat} (hd : d < r.base) :
    isDigit r (upperDigit d) = true := by
  rw [isDigit, digitValue?_upperDigit r d hd, Option.isSome_some]

/-- Digits of every base go on a name, so what is detached starts with none. -/
theorem isNameChar_of_isDigit {r : Radix} {c : Char} (h : isDigit r c = true) :
    isNameChar c = true := by
  by_cases hdecimal : '0' ≤ c ∧ c ≤ '9'
  · simp [isNameChar, hdecimal]
  by_cases hlower : 'a' ≤ c ∧ c ≤ 'f'
  · have hz : c ≤ 'z' := hlower.2.trans (by decide)
    simp [isNameChar, isNameStart, hlower.1, hz]
  by_cases hupper : 'A' ≤ c ∧ c ≤ 'F'
  · have hz : c ≤ 'Z' := hupper.2.trans (by decide)
    simp [isNameChar, isNameStart, hupper.1, hz]
  · simp [isDigit, digitValue?, hdecimal, hlower, hupper] at h

/-- What is detached does not go on a numeral of any base. -/
theorem Detached.not_isDigit {rest : List Char} (h : Detached rest)
    (r : Radix) :
    ∀ c ∈ rest.head?, isDigit r c = false := by
  intro c hc
  rw [Bool.eq_false_iff]
  intro hdigit
  exact absurd (isNameChar_of_isDigit hdigit) (Bool.eq_false_iff.mp (h c hc))

/-- Further digits do not make a number smaller, so a number within the limit
was within it all along. -/
theorem le_foldl_digits (r : Radix) (n : Nat) (ds : List Nat) :
    n ≤ ds.foldl (fun n d => n * r.base + d) n := by
  induction ds generalizing n with
  | nil => exact Nat.le_refl n
  | cons d ds ih =>
      refine Nat.le_trans ?_ (ih _)
      exact Nat.le_add_right_of_le
        (Nat.le_mul_of_pos_right n (by cases r <;> decide))

/-- Digits that are written are read as their value, if the limit admits it. -/
theorem readFrom_map_upperDigit {r : Radix} {limit n : Nat} {ds : List Nat}
    (hds : ∀ d ∈ ds, d < r.base)
    (hlimit : ds.foldl (fun n d => n * r.base + d) n ≤ limit) :
    readFrom r limit n (ds.map upperDigit)
      = .ok (ds.foldl (fun n d => n * r.base + d) n) := by
  induction ds generalizing n with
  | nil => rfl
  | cons d ds ih =>
      have hd := hds d List.mem_cons_self
      have hle : n * r.base + d ≤ limit :=
        (le_foldl_digits r _ ds).trans hlimit
      rw [List.map_cons, readFrom, digitValue?_upperDigit r d hd]
      simp only [hle, if_true]
      exact ih (fun d hd => hds d (List.mem_cons_of_mem _ hd)) hlimit

/-- The digits of a number are a numeral of that number. -/
theorem numeral_map_upperDigit {r : Radix} {ds : List Nat}
    (hds : ∀ d ∈ ds, d < r.base) (hlimit : value r ds ≤ numeralLimit) :
    numeral r (ds.map upperDigit) = .token (.number r (value r ds)) := by
  rw [numeral, readFrom_map_upperDigit hds hlimit]
  rfl

/-- Written digits are taken up to their end. -/
theorem takeWhile_map_upperDigit {r : Radix} {ds : List Nat}
    {rest : List Char} (hds : ∀ d ∈ ds, d < r.base) (hrest : Detached rest) :
    (ds.map upperDigit ++ rest).takeWhile (isDigit r)
      = ds.map upperDigit := by
  refine takeWhile_append_of_head ?_ (hrest.not_isDigit r)
  intro c hc
  obtain ⟨d, hd, rfl⟩ := List.mem_map.mp hc
  exact isDigit_upperDigit (hds d hd)

/-- Only letters announce a base. -/
theorem announced?_of_not_isNameChar {c : Char} (hc : isNameChar c = false) :
    announced? c = none := by
  unfold announced?
  split
  all_goals first | rfl | exact absurd hc (by decide)

/-- No letter can announce a base behind a decimal digit: digits or what ends
the numeral stand there. -/
theorem basedDigits?_digits {ds : List Nat} {rest : List Char}
    (hds : ∀ d ∈ ds, d < Radix.decimal.base) (hrest : Detached rest) :
    basedDigits? (ds.map upperDigit ++ rest) = none := by
  refine basedDigits?_eq_none ?_
  cases ds with
  | nil =>
      intro c hc
      exact announced?_of_not_isNameChar (hrest c hc)
  | cons d ds =>
      rintro c ⟨⟩
      have hdigit := isDigit_upperDigit (hds d List.mem_cons_self)
      exact (of_isDigit_decimal hdigit).2.2

/-- Decimal digits are read as one numeral. -/
theorem reads_digits_decimal {ds : List Nat} (hne : ds ≠ [])
    (hds : ∀ d ∈ ds, d < Radix.decimal.base)
    (hlimit : value .decimal ds ≤ numeralLimit) :
    Reads (ds.map upperDigit) [.number .decimal (value .decimal ds)] := by
  intro rest hrest
  obtain ⟨d, ds, rfl⟩ := List.exists_cons_of_ne_nil hne
  have hdigit : isDigit .decimal (upperDigit d) = true :=
    isDigit_upperDigit (hds d List.mem_cons_self)
  have htail : ∀ x ∈ ds, x < Radix.decimal.base :=
    fun x hx => hds x (List.mem_cons_of_mem _ hx)
  have hmunch : munch (upperDigit d) (ds.map upperDigit ++ rest)
      = (.token (.number .decimal (value .decimal (d :: ds))), ds.length) := by
    rw [munch_digit hdigit,
      munchNumeral_decimal fun _ => basedDigits?_digits htail hrest,
      takeWhile_map_upperDigit htail hrest, ← List.map_cons,
      numeral_map_upperDigit hds hlimit, List.length_map]
  rw [List.map_cons, List.cons_append, scan_cons, hmunch]
  simp [Piece.readings]

/-- Hexadecimal digits behind their mark are read as one numeral. -/
theorem reads_digits_hexadecimal {ds : List Nat} (hne : ds ≠ [])
    (hds : ∀ d ∈ ds, d < Radix.hexadecimal.base)
    (hlimit : value .hexadecimal ds ≤ numeralLimit) :
    Reads ('0' :: 'x' :: ds.map upperDigit)
      [.number .hexadecimal (value .hexadecimal ds)] := by
  intro rest hrest
  obtain ⟨d, ds, rfl⟩ := List.exists_cons_of_ne_nil hne
  have hdigit : isDigit .hexadecimal (upperDigit d) = true :=
    isDigit_upperDigit (hds d List.mem_cons_self)
  have htail : ∀ x ∈ ds, x < Radix.hexadecimal.base :=
    fun x hx => hds x (List.mem_cons_of_mem _ hx)
  have hmunch : munch '0' ('x' :: upperDigit d :: (ds.map upperDigit ++ rest))
      = (.token (.number .hexadecimal (value .hexadecimal (d :: ds))),
        ds.length + 2) := by
    rw [munch_digit rfl, munchNumeral_based rfl hdigit,
      takeWhile_map_upperDigit htail hrest, ← List.map_cons,
      numeral_map_upperDigit hds hlimit, List.length_map]
  rw [List.map_cons, List.cons_append, List.cons_append, List.cons_append,
    scan_cons, hmunch]
  simp [Piece.readings]

theorem digits_ne_nil (r : Radix) (n : Nat) : digits r n ≠ [] := by
  rw [digits]
  split <;> simp

/-- A number in decimal is read as that number. -/
theorem reads_decimal {n : Nat} (hn : n ≤ numeralLimit) :
    Reads (decimal n).toList [.number .decimal n] := by
  have hlower : (digits .decimal n).map lowerDigit
      = (digits .decimal n).map upperDigit := by
    refine List.map_congr_left ?_
    intro d hd
    have hlt : d < 10 := lt_base_of_mem_digits .decimal n d hd
    rw [lowerDigit, upperDigit, if_pos hlt, if_pos hlt]
  have hread := reads_digits_decimal (digits_ne_nil .decimal n)
    (lt_base_of_mem_digits .decimal n)
    (by rwa [value_digits])
  rwa [value_digits, ← hlower,
    ← String.toList_ofList (l := List.map _ _)] at hread

/-- Zeros in front of a numeral do not count. -/
theorem value_replicate_zero_append (r : Radix) (k : Nat) (ds : List Nat) :
    value r (List.replicate k 0 ++ ds) = value r ds := by
  induction k with
  | zero => rfl
  | succ k ih =>
      rw [List.replicate_succ, List.cons_append, ← ih]
      simp [value]

/-- A number in hexadecimal is read as that number, whatever its width. -/
theorem reads_hex {n : Nat} (width : Nat) (hn : n ≤ numeralLimit) :
    Reads ('0' :: 'x' :: (upperHex width n).toList)
      [.number .hexadecimal n] := by
  let ds :=
    List.replicate (width - (digits .hexadecimal n).length) 0
      ++ digits .hexadecimal n
  have htext : (upperHex width n).toList = ds.map upperDigit := by
    rw [upperHex, String.toList_ofList, padLeft, List.map_append,
      List.map_replicate, List.length_map]
    rfl
  have hvalue : value .hexadecimal ds = n := by
    rw [value_replicate_zero_append, value_digits]
  have hds : ∀ d ∈ ds, d < Radix.hexadecimal.base := by
    intro d hd
    rcases List.mem_append.mp hd with hd | hd
    · rw [List.eq_of_mem_replicate hd]
      decide
    · exact lt_base_of_mem_digits .hexadecimal n d hd
  have hne : ds ≠ [] :=
    List.append_ne_nil_of_right_ne_nil _ (digits_ne_nil .hexadecimal n)
  have hread := reads_digits_hexadecimal hne hds (by rwa [hvalue])
  rwa [hvalue, ← htext] at hread

end Assembly

end AvrFirmware

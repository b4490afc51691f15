/-
The patterns of tokens, and the longest match among them.

# Patterns

`Matches word piece` says what a whole word is. It has one rule for each
pattern of the lexical grammar: blanks, comments from a semicolon or from
two slashes, names, numerals in three bases, directives and signs. A word
is at most one thing (`Matches.unique`), although one word can be the
front of another: a zero may go on as a hexadecimal numeral, a dot as a
directive.

# The longest match

`munch` knows no patterns. It looks at the first character, sometimes at
the second, and then goes on as long as it can. The main result
`munch_longest` says that this is the longest match: the characters taken
match a pattern and no longer front of the text matches any, or no front
matches and one character is passed on unmatched. What is taken depends
on nothing but which fronts match (`munch_congr`).
-/
import AvrFirmware.Assembly.Token
import Mathlib

namespace AvrFirmware

namespace Assembly

open Numeral

-- ============================================================== patterns

/-- The tokens of one character. -/
def signs : List (Char × Token) :=
  [('.', .dot), ('+', .plus), ('-', .minus), (',', .comma), (':', .colon),
    ('\n', .newline)]

/-- What the digits of a numeral are: a number, or no token if it is too
large to be held. -/
def numeral (r : Radix) (digits : List Char) : Piece :=
  match readFrom r numeralLimit 0 digits with
  | .ok n => .token (.number r n)
  | .error _ => .unmatched

/-- The lexical grammar: which words there are and what each of them is. -/
inductive Matches : List Char → Piece → Prop where
  /-- `[ \t\r]+` -/
  | blanks {c : Char} {cs : List Char} (hc : isSpace c = true)
      (hcs : ∀ d ∈ cs, isSpace d = true) : Matches (c :: cs) .skipped
  /-- `;[^\n]*` -/
  | comment {cs : List Char} (hcs : ∀ d ∈ cs, isCommentChar d = true) :
      Matches (';' :: cs) .skipped
  /-- `//[^\n]*` -/
  | slashes {cs : List Char} (hcs : ∀ d ∈ cs, isCommentChar d = true) :
      Matches ('/' :: '/' :: cs) .skipped
  /-- `[a-zA-Z_][a-zA-Z0-9_]*` -/
  | name {c : Char} {cs : List Char} (hc : isNameStart c = true)
      (hcs : ∀ d ∈ cs, isNameChar d = true) :
      Matches (c :: cs) (.token (.identifier (String.ofList (c :: cs))))
  /-- `[0-9]+` -/
  | decimal {c : Char} {cs : List Char} (hc : isDigit .decimal c = true)
      (hcs : ∀ d ∈ cs, isDigit .decimal d = true) :
      Matches (c :: cs) (numeral .decimal (c :: cs))
  /-- `0[xX][0-9a-fA-F]+` and `0[bB][01]+` -/
  | based {r : Radix} {mark c : Char} {cs : List Char}
      (hmark : announced? mark = some r) (hc : isDigit r c = true)
      (hcs : ∀ d ∈ cs, isDigit r d = true) :
      Matches ('0' :: mark :: c :: cs) (numeral r (c :: cs))
  /-- `\.[a-zA-Z_][a-zA-Z0-9_]*` -/
  | directive {c : Char} {cs : List Char} (hc : isNameStart c = true)
      (hcs : ∀ d ∈ cs, isNameChar d = true) :
      Matches ('.' :: c :: cs)
        (.token (.directive (String.ofList (c :: cs))))
  /-- `.`, `+`, `-`, `,`, `:` and `\n` -/
  | sign {c : Char} {t : Token} (h : (c, t) ∈ signs) :
      Matches [c] (.token t)

/-- A front of a text that matches, and than which no longer one does. -/
structure LongestMatch (text word : List Char) (piece : Piece) : Prop where
  front : word <+: text
  matched : Matches word piece
  longest : ∀ other piece', other <+: text → Matches other piece' →
    other.length ≤ word.length

-- ===================================================== the lexer's branches

/-- How many characters are taken has nothing to do with what the digits
are. -/
theorem numeralPiece_eq (r : Radix) (digits : List Char) (more : Nat) :
    numeralPiece r digits more = (numeral r digits, more) := by
  unfold numeral numeralPiece
  cases readFrom r numeralLimit 0 digits with
  | ok n => rfl
  | error fault => rfl

/-- No blank starts a name. -/
theorem not_isSpace_of_isNameStart {c : Char} (hc : isNameStart c = true) :
    isSpace c = false := by
  rw [Bool.eq_false_iff]
  intro hspace
  simp only [isSpace, Bool.or_eq_true, beq_iff_eq] at hspace
  rcases hspace with (rfl | rfl) | rfl <;> exact absurd hc (by decide)

/-- A decimal digit is the character of its value. -/
theorem eq_lowerDigit_of_digitValue? {c : Char} {d : Nat}
    (h : digitValue? .decimal c = some d) : d < 10 ∧ c = lowerDigit d := by
  simp only [digitValue?] at h
  split_ifs at h with hdecimal hlt hlower hlt hupper hlt hnone
  · cases h
    have hlow : 48 ≤ c.toNat := hdecimal.1
    have hten : c.toNat - 48 < 10 := hlt
    refine ⟨hten, ?_⟩
    rw [lowerDigit, if_pos hten, Nat.add_sub_cancel' hlow, Char.ofNat_toNat]
  · have hlow : 97 ≤ c.toNat := hlower.1
    have hten : c.toNat - 87 < 10 := hlt
    omega
  · have hlow : 65 ≤ c.toNat := hupper.1
    have hten : c.toNat - 55 < 10 := hlt
    omega
  · exact absurd hnone (lt_irrefl _)

/-- No decimal digit starts anything else than a numeral, and none announces a
base. -/
theorem of_isDigit_decimal {c : Char} (hc : isDigit .decimal c = true) :
    isSpace c = false ∧ isNameStart c = false ∧ announced? c = none := by
  obtain ⟨d, hd⟩ := Option.isSome_iff_exists.mp hc
  obtain ⟨hten, rfl⟩ := eq_lowerDigit_of_digitValue? hd
  have hdigits : ∀ d < 10, isSpace (lowerDigit d) = false
      ∧ isNameStart (lowerDigit d) = false
      ∧ announced? (lowerDigit d) = none := by decide
  exact hdigits d hten

/-- Blanks are taken together. -/
theorem munch_space {c : Char} (hc : isSpace c = true) (cs : List Char) :
    munch c cs = (.skipped, (cs.takeWhile isSpace).length) := by
  simp only [munch, hc, if_true]

/-- A name goes on with letters, digits and underscores. -/
theorem munch_name {c : Char} (hc : isNameStart c = true)
    (cs : List Char) :
    munch c cs
      = (.token (.identifier (String.ofList (c :: cs.takeWhile isNameChar))),
        (cs.takeWhile isNameChar).length) := by
  simp only [munch, not_isSpace_of_isNameStart hc, hc, if_true]
  rfl

/-- A digit starts a numeral. -/
theorem munch_digit {c : Char} (hc : isDigit .decimal c = true)
    (cs : List Char) : munch c cs = munchNumeral c cs := by
  obtain ⟨hspace, hname, -⟩ := of_isDigit_decimal hc
  simp only [munch, hspace, hname, hc, if_true]
  rfl

/-- A letter with a digit behind it announces a base. -/
theorem basedDigits?_cons {r : Radix} {mark c : Char}
    (hmark : announced? mark = some r) (hc : isDigit r c = true)
    (cs : List Char) :
    basedDigits? (mark :: c :: cs)
      = some (r, c :: cs.takeWhile (isDigit r)) := by
  simp only [basedDigits?, hmark, List.takeWhile_cons_of_pos hc]

/-- Without a letter in front no base is announced. -/
theorem basedDigits?_eq_none {cs : List Char}
    (h : ∀ c ∈ cs.head?, announced? c = none) :
    basedDigits? cs = none := by
  cases cs with
  | nil => rfl
  | cons c cs => rw [basedDigits?, h c rfl]

/-- What announces a base is a letter with a digit behind it. -/
theorem exists_of_basedDigits? {cs digits : List Char} {r : Radix}
    (h : basedDigits? cs = some (r, digits)) :
    ∃ mark c ds, cs = mark :: c :: ds ∧ announced? mark = some r
      ∧ isDigit r c = true ∧ digits = c :: ds.takeWhile (isDigit r) := by
  cases cs with
  | nil => cases h
  | cons mark cs =>
      rw [basedDigits?] at h
      split at h
      · cases h
      · next r' hmark =>
          cases cs with
          | nil => cases h
          | cons c ds =>
              by_cases hc : isDigit r' c = true
              · rw [List.takeWhile_cons_of_pos hc] at h
                cases h
                exact ⟨mark, c, ds, rfl, hmark, hc, rfl⟩
              · rw [List.takeWhile_cons_of_neg hc] at h
                cases h

/-- With a mark and a digit behind the zero, the digits of the announced base
are taken. -/
theorem munchNumeral_based {r : Radix} {mark c : Char}
    (hmark : announced? mark = some r) (hc : isDigit r c = true)
    (cs : List Char) :
    munchNumeral '0' (mark :: c :: cs)
      = (numeral r (c :: cs.takeWhile (isDigit r)),
        (cs.takeWhile (isDigit r)).length + 2) := by
  simp only [munchNumeral, if_true, basedDigits?_cons hmark hc,
    numeralPiece_eq, List.length_cons]

/-- Otherwise the decimal digits are. -/
theorem munchNumeral_decimal {c : Char} {cs : List Char}
    (h : c = '0' → basedDigits? cs = none) :
    munchNumeral c cs
      = (numeral .decimal (c :: cs.takeWhile (isDigit .decimal)),
        (cs.takeWhile (isDigit .decimal)).length) := by
  have hnone : (if c = '0' then basedDigits? cs else none) = none := by
    split
    · next hc => exact h hc
    · rfl
  simp only [munchNumeral, hnone, numeralPiece_eq]

/-- A dot with a name behind it is a directive. -/
theorem munchDot_directive {c : Char} (hc : isNameStart c = true)
    (cs : List Char) :
    munchDot (c :: cs)
      = (.token (.directive (String.ofList (c :: cs.takeWhile isNameChar))),
        (cs.takeWhile isNameChar).length + 1) := by
  simp only [munchDot, hc, if_true]

theorem munch_dot (cs : List Char) : munch '.' cs = munchDot cs :=
  rfl

/-- A comment goes on to the end of the line. -/
theorem munch_comment (cs : List Char) :
    munch ';' cs = (.skipped, (cs.takeWhile isCommentChar).length) :=
  rfl

theorem munch_slashes (cs : List Char) :
    munch '/' ('/' :: cs)
      = (.skipped, (cs.takeWhile isCommentChar).length + 1) :=
  rfl

/-- A sign stands for itself, a dot only if no name follows it. -/
theorem munch_sign {c : Char} {t : Token} (h : (c, t) ∈ signs)
    {cs : List Char} (hcs : c = '.' → ∀ d ∈ cs.head?, isNameStart d = false) :
    munch c cs = (.token t, 0) := by
  simp only [signs, List.mem_cons, Prod.mk.injEq, List.not_mem_nil,
    or_false] at h
  rcases h with ⟨rfl, rfl⟩ | ⟨rfl, rfl⟩ | ⟨rfl, rfl⟩ | ⟨rfl, rfl⟩
    | ⟨rfl, rfl⟩ | ⟨rfl, rfl⟩
  · cases cs with
    | nil => rfl
    | cons d cs =>
        rw [munch_dot, munchDot, hcs rfl d rfl]
        rfl
  all_goals rfl

-- ========================================================= what is taken

/-- A word is taken whole. -/
theorem Matches.munch_eq {c : Char} {cs : List Char} {piece : Piece}
    (h : Matches (c :: cs) piece) : munch c cs = (piece, cs.length) := by
  cases h with
  | blanks hc hcs => rw [munch_space hc, List.takeWhile_eq_self_iff.mpr hcs]
  | comment hcs => rw [munch_comment, List.takeWhile_eq_self_iff.mpr hcs]
  | slashes hcs =>
      rw [munch_slashes, List.takeWhile_eq_self_iff.mpr hcs, List.length_cons]
  | name hc hcs => rw [munch_name hc, List.takeWhile_eq_self_iff.mpr hcs]
  | decimal hc hcs =>
      have hnone : basedDigits? cs = none := by
        refine basedDigits?_eq_none ?_
        intro d hd
        exact (of_isDigit_decimal (hcs d (List.mem_of_mem_head? hd))).2.2
      rw [munch_digit hc, munchNumeral_decimal fun _ => hnone,
        List.takeWhile_eq_self_iff.mpr hcs]
  | based hmark hc hcs =>
      rw [munch_digit rfl, munchNumeral_based hmark hc,
        List.takeWhile_eq_self_iff.mpr hcs]
      rfl
  | directive hc hcs =>
      rw [munch_dot, munchDot_directive hc,
        List.takeWhile_eq_self_iff.mpr hcs, List.length_cons]
  | sign h => exact munch_sign h (fun _ d hd => by cases hd)

/-- A word is one thing at most. -/
theorem Matches.unique {word : List Char} {piece piece' : Piece}
    (h : Matches word piece) (h' : Matches word piece') : piece = piece' := by
  cases word with
  | nil => cases h
  | cons c cs => exact congrArg Prod.fst (h.munch_eq.symm.trans h'.munch_eq)

/-- The characters taken are a front of the text, and a word. -/
def TakesWord (c : Char) (cs : List Char) : Prop :=
  ∃ more piece, munch c cs = (piece, more.length) ∧ more <+: cs
    ∧ Matches (c :: more) piece

theorem takesWord_space {c : Char} (hc : isSpace c = true) (cs : List Char) :
    TakesWord c cs :=
  ⟨_, _, munch_space hc cs, List.takeWhile_prefix _,
    .blanks hc fun _ => List.mem_takeWhile_imp⟩

theorem takesWord_comment (cs : List Char) : TakesWord ';' cs :=
  ⟨_, _, munch_comment cs, List.takeWhile_prefix _,
    .comment fun _ => List.mem_takeWhile_imp⟩

theorem takesWord_slashes (cs : List Char) : TakesWord '/' ('/' :: cs) :=
  ⟨_ :: _, _, munch_slashes cs,
    List.cons_prefix_cons.mpr ⟨rfl, List.takeWhile_prefix _⟩,
    .slashes fun _ => List.mem_takeWhile_imp⟩

/-- A name is a word, up to the first character that is in no name. -/
theorem takesWord_name {c : Char} (hc : isNameStart c = true)
    (cs : List Char) : TakesWord c cs :=
  ⟨_, _, munch_name hc cs, List.takeWhile_prefix _,
    .name hc fun _ => List.mem_takeWhile_imp⟩

/-- Of the two ways to take a numeral each gives a word. -/
theorem takesWord_digit {c : Char} (hc : isDigit .decimal c = true)
    (cs : List Char) : TakesWord c cs := by
  by_cases hnone : c = '0' → basedDigits? cs = none
  · refine ⟨_, _, ?_, List.takeWhile_prefix _,
      .decimal hc fun _ => List.mem_takeWhile_imp⟩
    rw [munch_digit hc, munchNumeral_decimal hnone]
  · obtain ⟨rfl, hsome⟩ := Classical.not_imp.mp hnone
    obtain ⟨⟨r, digits⟩, hbased⟩ := Option.ne_none_iff_exists'.mp hsome
    obtain ⟨mark, d, ds, rfl, hmark, hd, -⟩ := exists_of_basedDigits? hbased
    refine ⟨mark :: d :: ds.takeWhile (isDigit r), _, ?_, ?_,
      .based hmark hd fun _ => List.mem_takeWhile_imp⟩
    · rw [munch_digit hc, munchNumeral_based hmark hd]
      rfl
    · exact List.cons_prefix_cons.mpr
        ⟨rfl, List.cons_prefix_cons.mpr ⟨rfl, List.takeWhile_prefix _⟩⟩

/-- A sign is a word, and a dot starts a directive where a name follows. -/
theorem takesWord_sign {c : Char} {t : Token} (h : (c, t) ∈ signs)
    (cs : List Char) : TakesWord c cs := by
  by_cases halone : c = '.' → ∀ d ∈ cs.head?, isNameStart d = false
  · exact ⟨[], _, munch_sign h halone, List.nil_prefix, .sign h⟩
  · obtain ⟨rfl, hname⟩ := Classical.not_imp.mp halone
    cases cs with
    | nil => exact absurd (fun d hd => by cases hd) hname
    | cons d cs =>
        have hd : isNameStart d = true := by simpa using hname
        exact ⟨_ :: _, _, munchDot_directive hd cs,
          List.cons_prefix_cons.mpr ⟨rfl, List.takeWhile_prefix _⟩,
          .directive hd fun _ => List.mem_takeWhile_imp⟩

/-- Where no word is taken, one character is passed on unmatched. -/
theorem takesWord_or_unmatched (c : Char) (cs : List Char) :
    TakesWord c cs ∨ munch c cs = (.unmatched, 0) := by
  by_cases hspace : isSpace c = true
  · exact .inl (takesWord_space hspace cs)
  by_cases hname : isNameStart c = true
  · exact .inl (takesWord_name hname cs)
  by_cases hdigit : isDigit .decimal c = true
  · exact .inl (takesWord_digit hdigit cs)
  by_cases hsign : c ∈ signs.map Prod.fst
  · obtain ⟨⟨c, t⟩, ht, rfl⟩ := List.mem_map.mp hsign
    exact .inl (takesWord_sign ht cs)
  by_cases hcomment : c = ';'
  · exact .inl (hcomment ▸ takesWord_comment cs)
  by_cases hslash : ∃ more, c = '/' ∧ cs = '/' :: more
  · obtain ⟨more, rfl, rfl⟩ := hslash
    exact .inl (takesWord_slashes more)
  -- no opening is left, and of the lexer's branches only the last two
  right
  unfold munch
  rw [if_neg hspace, if_neg hname, if_neg hdigit]
  split
  · exact absurd rfl hcomment
  · unfold munchSlash
    split
    · next more => exact absurd ⟨more, rfl, rfl⟩ hslash
    · rfl
  all_goals first
    | rfl
    | exact absurd (by decide) hsign

/-- A front of one kind of character is not longer than the longest such
front. -/
theorem length_le_takeWhile {p : Char → Bool} {word cs : List Char}
    (hfront : word <+: cs) (h : ∀ d ∈ word, p d = true) :
    word.length ≤ (cs.takeWhile p).length := by
  obtain ⟨rest, rfl⟩ := hfront
  rw [List.takeWhile_append_of_pos h, List.length_append]
  exact Nat.le_add_right _ _

/-- If a word stands at the front of a text, then a word is taken, and no
shorter one. -/
theorem Matches.takesWord {c : Char} {word cs : List Char} {piece : Piece}
    (h : Matches word piece) (hfront : word <+: c :: cs) :
    TakesWord c cs ∧ word.length ≤ (munch c cs).2 + 1 := by
  cases h with
  | blanks hc hcs =>
      obtain ⟨rfl, hmore⟩ := List.cons_prefix_cons.mp hfront
      refine ⟨takesWord_space hc cs, ?_⟩
      rw [munch_space hc]
      exact Nat.succ_le_succ (length_le_takeWhile hmore hcs)
  | comment hcs =>
      obtain ⟨rfl, hmore⟩ := List.cons_prefix_cons.mp hfront
      refine ⟨takesWord_comment cs, ?_⟩
      exact Nat.succ_le_succ (length_le_takeWhile hmore hcs)
  | slashes hcs =>
      obtain ⟨rfl, more, rfl⟩ := List.cons_prefix_cons.mp hfront
      refine ⟨takesWord_slashes _, ?_⟩
      exact Nat.succ_le_succ (Nat.succ_le_succ
        (length_le_takeWhile (List.prefix_append _ _) hcs))
  | name hc hcs =>
      obtain ⟨rfl, hmore⟩ := List.cons_prefix_cons.mp hfront
      refine ⟨takesWord_name hc cs, ?_⟩
      rw [munch_name hc]
      exact Nat.succ_le_succ (length_le_takeWhile hmore hcs)
  | @decimal _ word hc hcs =>
      obtain ⟨rfl, more, rfl⟩ := List.cons_prefix_cons.mp hfront
      refine ⟨takesWord_digit hc _, ?_⟩
      -- a single digit is the front of whatever is taken; behind a
      -- second one no base is announced
      cases word with
      | nil => exact Nat.succ_le_succ (Nat.zero_le _)
      | cons d word =>
          have hnone : basedDigits? (d :: word ++ more) = none := by
            refine basedDigits?_eq_none ?_
            rintro d' ⟨⟩
            exact (of_isDigit_decimal (hcs d List.mem_cons_self)).2.2
          rw [munch_digit hc, munchNumeral_decimal fun _ => hnone]
          exact Nat.succ_le_succ
            (length_le_takeWhile (List.prefix_append _ _) hcs)
  | based hmark hc hcs =>
      obtain ⟨rfl, more, rfl⟩ := List.cons_prefix_cons.mp hfront
      refine ⟨takesWord_digit rfl _, ?_⟩
      rw [munch_digit rfl, List.cons_append, List.cons_append,
        munchNumeral_based hmark hc]
      exact Nat.succ_le_succ (Nat.succ_le_succ (Nat.succ_le_succ
        (length_le_takeWhile (List.prefix_append _ _) hcs)))
  | directive hc hcs =>
      obtain ⟨rfl, more, rfl⟩ := List.cons_prefix_cons.mp hfront
      refine ⟨takesWord_sign (t := .dot) (by decide) _, ?_⟩
      rw [munch_dot, List.cons_append, munchDot_directive hc]
      exact Nat.succ_le_succ (Nat.succ_le_succ
        (length_le_takeWhile (List.prefix_append _ _) hcs))
  | sign h =>
      obtain ⟨rfl, -⟩ := List.cons_prefix_cons.mp hfront
      exact ⟨takesWord_sign h cs, Nat.succ_le_succ (Nat.zero_le _)⟩

-- ======================================================== longest match

/-- What is taken is the longest match, and a character is unmatched exactly
where none starts. -/
theorem munch_longest (c : Char) (cs : List Char) :
    (∃ more piece, munch c cs = (piece, more.length)
        ∧ LongestMatch (c :: cs) (c :: more) piece)
      ∨ munch c cs = (.unmatched, 0)
        ∧ ∀ word piece, word <+: c :: cs → ¬ Matches word piece := by
  by_cases hword : TakesWord c cs
  · obtain ⟨more, piece, hmunch, hmore, hmatch⟩ := hword
    refine .inl ⟨more, piece, hmunch,
      List.cons_prefix_cons.mpr ⟨rfl, hmore⟩, hmatch, ?_⟩
    intro other piece' hfront hother
    have hle := (hother.takesWord hfront).2
    rwa [hmunch] at hle
  · refine .inr ⟨(takesWord_or_unmatched c cs).resolve_left hword, ?_⟩
    intro word piece hfront hmatch
    exact hword (hmatch.takesWord hfront).1

/-- No piece is longer than the text. -/
theorem snd_munch_le (c : Char) (cs : List Char) :
    (munch c cs).2 ≤ cs.length := by
  rcases munch_longest c cs with ⟨more, piece, hmunch, hlongest⟩ | ⟨hnone, -⟩
  · rw [hmunch]
    exact Nat.le_of_succ_le_succ hlongest.front.length_le
  · rw [hnone]
    exact Nat.zero_le _

/-- A token is what its characters match. -/
theorem matches_of_munch {c : Char} {cs : List Char} {t : Token}
    (h : (munch c cs).1 = .token t) :
    Matches (c :: cs.take (munch c cs).2) (.token t) := by
  rcases munch_longest c cs with ⟨more, piece, hmunch, hlongest⟩ | ⟨hnone, -⟩
  · rw [hmunch] at h ⊢
    have hmore := (List.cons_prefix_cons.mp hlongest.front).2
    rw [← List.prefix_iff_eq_take.mp hmore, ← h]
    exact hlongest.matched
  · rw [hnone] at h
    cases h

/-- A text has one longest match at most. -/
theorem LongestMatch.unique {text word word' : List Char}
    {piece piece' : Piece} (h : LongestMatch text word piece)
    (h' : LongestMatch text word' piece') : word = word' ∧ piece = piece' := by
  have hlength : word.length = word'.length :=
    Nat.le_antisymm (h'.longest _ _ h.front h.matched)
      (h.longest _ _ h'.front h'.matched)
  have hword : word = word' :=
    (List.prefix_of_prefix_length_le h.front h'.front hlength.le).eq_of_length
      hlength
  subst hword
  exact ⟨rfl, h.matched.unique h'.matched⟩

/-- Two texts with the same words in front have the same longest match. -/
theorem LongestMatch.congr {text text' word : List Char} {piece : Piece}
    (h : LongestMatch text word piece)
    (hfronts : ∀ word piece, Matches word piece →
      (word <+: text ↔ word <+: text')) :
    LongestMatch text' word piece where
  front := (hfronts _ _ h.matched).mp h.front
  matched := h.matched
  longest := fun other piece' hfront hother =>
    h.longest other piece' ((hfronts _ _ hother).mpr hfront) hother

/-- What is taken depends on nothing but the words that stand in front. -/
theorem munch_congr {c : Char} {cs cs' : List Char}
    (hfronts : ∀ word piece, Matches word piece →
      (word <+: c :: cs ↔ word <+: c :: cs')) :
    munch c cs = munch c cs' := by
  rcases munch_longest c cs with ⟨more, piece, hmunch, hlongest⟩ | ⟨hnone, hno⟩
  · rcases munch_longest c cs' with ⟨more', piece', hmunch', hlongest'⟩
        | ⟨-, hno'⟩
    · obtain ⟨hmore, hpiece⟩ := (hlongest.congr hfronts).unique hlongest'
      rw [hmunch, hmunch', hpiece, (List.cons.inj hmore).2]
    · exact absurd hlongest.matched
        (hno' _ _ (hlongest.congr hfronts).front)
  · rcases munch_longest c cs' with ⟨more', piece', -, hlongest'⟩ | ⟨hnone', -⟩
    · exact absurd hlongest'.matched
        (hno _ _ ((hfronts _ _ hlongest'.matched).mpr hlongest'.front))
    · rw [hnone, hnone']

end Assembly

end AvrFirmware

/-
Sources are read line by line.

# Text

Nothing goes on over a line feed: no word but the line feed itself has one
in it (`Matches.newline`), and the longest match depends on the words in
front alone. So what stands in front of a line feed is taken apart as if
the text ended there (`munch_append_newline`), what stands behind it as
if the text began there, and the readings of the two make up those of the
whole (`scan_append_newline`). Only a line feed is read as one
(`newline_mem_scan_iff`).

# Lines

A text without line feeds is gathered into tokens or refused, wherever it
stands (`gathers_or_refused`), and the number of its line goes into the
result and nowhere else (`linesOfTokens_eq_numbered`). So a line of a
source is what the same text is by itself, with its number in place of
one. By induction a source is its lines, each read by itself
(`parseAll_intercalate`): the first line that fails decides, and otherwise
the results stand one behind the other.
-/
import AvrFirmware.Proofs.Assembly.Lexing
import AvrFirmware.Assembly.Line

namespace AvrFirmware

namespace Assembly

-- ================================================================== text

/-- Characters of a kind that leaves out the line feed. -/
theorem newline_not_mem_of_forall {p : Char → Bool} {cs : List Char}
    (hp : p '\n' = false) (hcs : ∀ d ∈ cs, p d = true) : '\n' ∉ cs := by
  intro hmem
  exact Bool.false_ne_true (hp.symm.trans (hcs _ hmem))

/-- No word but the line feed itself has a line feed in it. -/
theorem Matches.newline {word : List Char} {piece : Piece}
    (h : Matches word piece) : word = ['\n'] ∨ '\n' ∉ word := by
  cases h with
  | blanks hc hcs =>
      exact .inr (newline_not_mem_of_forall (p := isSpace) rfl
        (List.forall_mem_cons.mpr ⟨hc, hcs⟩))
  | comment hcs =>
      right
      simp [newline_not_mem_of_forall rfl hcs]
  | slashes hcs =>
      right
      simp [newline_not_mem_of_forall rfl hcs]
  | name hc hcs =>
      exact .inr (newline_not_mem_of_forall (p := isNameChar) rfl
        (List.forall_mem_cons.mpr ⟨isNameChar_of_isNameStart hc, hcs⟩))
  | decimal hc hcs =>
      exact .inr (newline_not_mem_of_forall (p := Numeral.isDigit .decimal) rfl
        (List.forall_mem_cons.mpr ⟨hc, hcs⟩))
  | @based r mark c cs hmark hc hcs =>
      right
      have hstop : Numeral.isDigit r '\n' = false := by cases r <;> rfl
      have hdigits : '\n' ∉ c :: cs :=
        newline_not_mem_of_forall hstop (List.forall_mem_cons.mpr ⟨hc, hcs⟩)
      have hletter : mark ≠ '\n' := by
        rintro rfl
        cases hmark
      simp [hdigits, hletter.symm]
  | directive hc hcs =>
      right
      have hname := newline_not_mem_of_forall (p := isNameChar) rfl
        (List.forall_mem_cons.mpr ⟨isNameChar_of_isNameStart hc, hcs⟩)
      simp [hname]
  | @sign c t hsign =>
      by_cases hc : c = '\n'
      · exact .inl (hc ▸ rfl)
      · exact .inr (by simp [Ne.symm hc])

/-- A word without line feeds stands in front of a text exactly if it stands in
front of the first line. -/
theorem prefix_of_newline_not_mem {word text rest : List Char}
    (hword : '\n' ∉ word) :
    word <+: text ++ '\n' :: rest ↔ word <+: text := by
  constructor
  · intro hfront
    by_cases hle : word.length ≤ text.length
    · exact List.prefix_of_prefix_length_le hfront
        (List.prefix_append _ _) hle
    · have hlong : text ++ ['\n'] <+: word := by
        refine List.prefix_of_prefix_length_le ?_ hfront ?_
        · exact ⟨rest, by rw [List.append_assoc, List.singleton_append]⟩
        · rw [List.length_append, List.length_singleton]
          omega
      exact absurd (hlong.subset (by simp)) hword
  · intro hfront
    exact hfront.trans (List.prefix_append _ _)

/-- Nothing goes on over a line feed. -/
theorem munch_append_newline (c : Char) (cs rest : List Char) :
    munch c (cs ++ '\n' :: rest) = munch c cs := by
  refine munch_congr ?_
  intro word piece hmatch
  rcases hmatch.newline with rfl | hword
  · rw [List.cons_prefix_cons, List.cons_prefix_cons]
    exact and_congr_right fun _ =>
      ⟨fun _ => List.nil_prefix, fun _ => List.nil_prefix⟩
  · rw [← List.cons_append]
    exact prefix_of_newline_not_mem hword

/-- A line feed parts the readings of a text into those before and those behind
it. -/
theorem scan_append_newline (text rest : List Char) :
    scan (text ++ '\n' :: rest) = scan text ++ .ok .newline :: scan rest := by
  induction text using pieces_induction with
  | nil => rw [List.nil_append, scan_newline, scan_nil, List.nil_append]
  | cons c cs ih =>
      have hle := snd_munch_le c cs
      rw [List.cons_append, scan_cons, scan_cons, munch_append_newline,
        List.take_append_of_le_length hle, List.drop_append_of_le_length hle,
        ih, List.append_assoc]

/-- Only a line feed is read as one. -/
theorem Matches.eq_newline {word : List Char}
    (h : Matches word (.token .newline)) : word = ['\n'] := by
  generalize hpiece : Piece.token .newline = piece at h
  cases h with
  | blanks hc hcs => cases hpiece
  | comment hcs => cases hpiece
  | slashes hcs => cases hpiece
  | name hc hcs => cases hpiece
  | decimal hc hcs =>
      obtain ⟨n, -, hnumber⟩ := exists_number_of_numeral hpiece.symm
      cases hnumber
  | based hmark hc hcs =>
      obtain ⟨n, -, hnumber⟩ := exists_number_of_numeral hpiece.symm
      cases hnumber
  | directive hc hcs => cases hpiece
  | @sign c t hsign =>
      cases hpiece
      have honly : ∀ e ∈ signs, e.2 = .newline → e.1 = '\n' := by decide
      exact congrArg (fun c => [c]) (honly _ hsign rfl)

/-- A text has a line feed exactly if one is read. -/
theorem newline_mem_scan_iff {text : List Char} :
    .ok .newline ∈ scan text ↔ '\n' ∈ text := by
  constructor
  · intro hmem
    obtain ⟨word, hword, hmatch⟩ := exists_matches_of_mem_scan hmem
    rw [hmatch.eq_newline] at hword
    exact hword.subset List.mem_cons_self
  · intro hmem
    obtain ⟨front, rest, rfl⟩ := List.append_of_mem hmem
    rw [scan_append_newline]
    exact List.mem_append_right _ List.mem_cons_self

-- ============================================================== gathering

theorem exists_cons_of_map_reading {ls : List Lexeme} {t : Token}
    {more : List (Except (List Char) Token)}
    (h : ls.map Lexeme.reading = .ok t :: more) :
    ∃ l rest, ls = l :: rest ∧ l.token = some t
      ∧ rest.map Lexeme.reading = more := by
  obtain ⟨l, rest, rfl, hl, hrest⟩ := List.map_eq_cons_iff.mp h
  refine ⟨l, rest, rfl, ?_, hrest⟩
  unfold Lexeme.reading at hl
  split at hl
  · next t' ht' =>
      cases hl
      exact ht'
  · cases hl

/-- Tokens within a line are gathered. -/
theorem parseFrom_tokens {ls : List Lexeme} {ts : List Token}
    {more : List (Except (List Char) Token)} (done : List Line) (number : Nat)
    (pending : List Token) (hls : ls.map Lexeme.reading = ts.map .ok ++ more)
    (hts : Token.newline ∉ ts) :
    ∃ rest, rest.map Lexeme.reading = more
      ∧ Line.parseFrom done number pending ls
        = Line.parseFrom done number (ts.reverse ++ pending) rest := by
  induction ts generalizing ls pending with
  | nil => exact ⟨ls, hls, rfl⟩
  | cons t ts ih =>
      obtain ⟨l, ls, rfl, hl, hls⟩ := exists_cons_of_map_reading hls
      rw [List.mem_cons, not_or] at hts
      have hstep : Line.parseFrom done number pending (l :: ls)
          = Line.parseFrom done number (t :: pending) ls := by
        cases t with
        | newline => exact absurd rfl hts.1
        | _ => simp only [Line.parseFrom, hl]
      obtain ⟨rest, hrest, hparse⟩ := ih (t :: pending) hls hts.2
      refine ⟨rest, hrest, ?_⟩
      rw [hstep, hparse, List.reverse_cons, List.append_assoc,
        List.singleton_append]

/-- Characters that are no token end the reading. -/
theorem parseFrom_error {l : Lexeme} {chars : List Char}
    (hl : l.reading = .error chars) (done : List Line) (number : Nat)
    (pending : List Token) (rest : List Lexeme) :
    Line.parseFrom done number pending (l :: rest)
      = .error ⟨number,
        .badSyntax (.unexpectedInput (String.ofList chars))⟩ := by
  unfold Lexeme.reading at hl
  split at hl
  · cases hl
  · next hnone =>
      cases hl
      simp only [Line.parseFrom, hnone]

/-- Readings are tokens up to the end, or up to characters that are none. -/
theorem tokens_or_error (rs : List (Except (List Char) Token)) :
    (∃ ts : List Token, rs = ts.map .ok)
      ∨ ∃ (ts : List Token) (chars : List Char)
        (more : List (Except (List Char) Token)),
        rs = ts.map .ok ++ .error chars :: more := by
  induction rs with
  | nil => exact .inl ⟨[], rfl⟩
  | cons r rs ih =>
      cases r with
      | error chars => exact .inr ⟨[], chars, rs, rfl⟩
      | ok t =>
          rcases ih with ⟨ts, rfl⟩ | ⟨ts, chars, more, rfl⟩
          · exact .inl ⟨t :: ts, rfl⟩
          · exact .inr ⟨t :: ts, chars, more, rfl⟩

/-- The tokens of a text are gathered, wherever its line stands and whatever
comes behind it. -/
def Gathers (text : List Char) (ts : List Token) : Prop :=
  ∀ (done : List Line) (number : Nat) (ls : List Lexeme)
      (more : List (Except (List Char) Token)),
    ls.map Lexeme.reading = scan text ++ more →
      ∃ rest, rest.map Lexeme.reading = more
        ∧ Line.parseFrom done number [] ls
          = Line.parseFrom done number ts.reverse rest

/-- A text is refused for one cause, wherever its line stands and whatever
comes behind it. -/
def Refused (text : List Char) (cause : Cause) : Prop :=
  ∀ (done : List Line) (number : Nat) (ls : List Lexeme)
      (more : List (Except (List Char) Token)),
    ls.map Lexeme.reading = scan text ++ more →
      Line.parseFrom done number [] ls = .error ⟨number, cause⟩

/-- A text that is read as tokens on one line is gathered. -/
theorem gathers_of_scan {text : List Char} {ts : List Token}
    (hscan : scan text = ts.map .ok) (hts : Token.newline ∉ ts) :
    Gathers text ts := by
  intro done number ls more hls
  rw [hscan] at hls
  obtain ⟨rest, hrest, hparse⟩ := parseFrom_tokens done number [] hls hts
  rw [List.append_nil] at hparse
  exact ⟨rest, hrest, hparse⟩

/-- A text that is read as tokens on one line, then as characters that are
none, is refused. -/
theorem refused_of_scan {text chars : List Char} {ts : List Token}
    {behind : List (Except (List Char) Token)}
    (hscan : scan text = ts.map .ok ++ .error chars :: behind)
    (hts : Token.newline ∉ ts) :
    Refused text (.badSyntax (.unexpectedInput (String.ofList chars))) := by
  intro done number ls more hls
  rw [hscan, List.append_assoc] at hls
  obtain ⟨rest, hrest, hparse⟩ := parseFrom_tokens done number [] hls hts
  obtain ⟨l, rest, rfl, hl, -⟩ := List.map_eq_cons_iff.mp hrest
  rw [hparse, parseFrom_error hl]

theorem gathers_or_refused {text : List Char} (h : '\n' ∉ text) :
    (∃ ts, Gathers text ts) ∨ ∃ cause, Refused text cause := by
  rw [← newline_mem_scan_iff] at h
  rcases tokens_or_error (scan text) with ⟨ts, hscan⟩
      | ⟨ts, chars, behind, hscan⟩
  · rw [hscan] at h
    exact .inl ⟨ts,
      gathers_of_scan hscan fun hmem => h (List.mem_map_of_mem hmem)⟩
  · rw [hscan] at h
    exact .inr ⟨_, refused_of_scan hscan fun hmem =>
      h (List.mem_append_left _ (List.mem_map_of_mem hmem))⟩

-- ================================================================= lines

/-- The result of reading a text, with the number of a line in place of its
own. -/
def numbered (number : Nat) :
    Except Error (List Line) → Except Error (List Line)
  | .error e => .error { e with line := number }
  | .ok lines => .ok (lines.map fun line => { line with number := number })

/-- The lines that some tokens of one line make: none without tokens. -/
def linesOfTokens (number : Nat) : List Token → Except Error (List Line)
  | [] => .ok []
  | t :: ts => (fun line => [line]) <$> Line.parse number (t :: ts)

/-- The number of a line goes into its result and nowhere else. -/
theorem linesOfTokens_eq_numbered (number : Nat) (ts : List Token) :
    linesOfTokens number ts = numbered number (linesOfTokens 1 ts) := by
  cases ts with
  | nil => rfl
  | cons t ts =>
      show (fun line => [line]) <$> Line.parse number (t :: ts)
        = numbered number ((fun line => [line]) <$> Line.parse 1 (t :: ts))
      unfold Line.parse
      cases statement (labelled (t :: ts)).2 with
      | error cause => rfl
      | ok s => rfl

theorem linesOfTokens_reverse {t : Token} {pending : List Token}
    (number : Nat) :
    linesOfTokens number (t :: pending).reverse
      = (fun line => [line]) <$> Line.parse number (t :: pending).reverse := by
  obtain ⟨t', ts, hts⟩ := List.exists_cons_of_ne_nil
    (List.reverse_ne_nil_iff.mpr (List.cons_ne_nil t pending))
  rw [hts]
  rfl

/-- At the end of the text the tokens that were gathered are the last line. -/
theorem parseFrom_nil (done : List Line) (number : Nat)
    (pending : List Token) :
    Line.parseFrom done number pending []
      = (fun lines => done.reverse ++ lines)
        <$> linesOfTokens number pending.reverse := by
  cases pending with
  | nil => exact congrArg Except.ok (List.append_nil _).symm
  | cons t pending =>
      rw [linesOfTokens_reverse, Line.parseFrom]
      cases Line.parse number (t :: pending).reverse with
      | error e => rfl
      | ok line => exact congrArg Except.ok List.reverse_cons

/-- A line feed ends the line of the tokens that were gathered. -/
theorem parseFrom_newline (done : List Line) (number : Nat)
    (pending : List Token) {l : Lexeme} (hl : l.token = some .newline)
    (rest : List Lexeme) :
    Line.parseFrom done number pending (l :: rest)
      = linesOfTokens number pending.reverse >>= fun lines =>
        Line.parseFrom (lines.reverse ++ done) (number + 1) [] rest := by
  cases pending with
  | nil =>
      simp only [Line.parseFrom, hl]
      rfl
  | cons t pending =>
      simp only [Line.parseFrom, hl, linesOfTokens_reverse]
      cases Line.parse number (t :: pending).reverse with
      | error e => rfl
      | ok line => rfl

theorem map_reading_lexemes (text : String) :
    (lexemes text).map Lexeme.reading = scan text.toList ++ [] :=
  (List.append_nil _).symm

theorem Gathers.parseAll_eq {text : String} {ts : List Token}
    (h : Gathers text.toList ts) :
    Line.parseAll text = linesOfTokens 1 ts := by
  obtain ⟨rest, hrest, hparse⟩ := h [] 1 _ _ (map_reading_lexemes text)
  rw [List.map_eq_nil_iff.mp hrest, parseFrom_nil,
    List.reverse_reverse] at hparse
  exact hparse.trans (id_map _)

theorem Refused.parseAll_eq {text : String} {cause : Cause}
    (h : Refused text.toList cause) :
    Line.parseAll text = .error ⟨1, cause⟩ :=
  h [] 1 _ _ (map_reading_lexemes text)

-- =============================================================== sources

/-- Texts that are read by themselves and put one behind the other, the first
on the line of some number. -/
def readEach (number : Nat) : List String → Except Error (List Line)
  | [] => .ok []
  | text :: texts => do
      let lines ← numbered number (Line.parseAll text)
      let more ← readEach (number + 1) texts
      return lines ++ more

/-- Behind the first of some texts stands nothing, or a line feed and the other
texts. -/
theorem scan_intercalate_cons (text : String) (texts : List String) :
    ∃ more,
      scan ("\n".intercalate (text :: texts)).toList = scan text.toList ++ more
      ∧ (texts = [] ∧ more = []
        ∨ more = .ok .newline :: scan ("\n".intercalate texts).toList) := by
  by_cases hlast : texts = []
  · subst hlast
    rw [String.intercalate_singleton]
    exact ⟨[], (List.append_nil _).symm, .inl ⟨rfl, rfl⟩⟩
  · rw [String.intercalate_cons_of_ne_nil hlast, String.append_assoc,
      String.toList_append, String.toList_append]
    exact ⟨_, scan_append_newline _ _, .inr rfl⟩

/-- Texts on lines of their own are read as by themselves. -/
theorem parseFrom_intercalate {texts : List String}
    (h : ∀ text ∈ texts, '\n' ∉ text.toList) (done : List Line) (number : Nat)
    {ls : List Lexeme}
    (hls : ls.map Lexeme.reading = scan ("\n".intercalate texts).toList) :
    Line.parseFrom done number [] ls
      = (fun lines => done.reverse ++ lines) <$> readEach number texts := by
  induction texts generalizing done number ls with
  | nil =>
      rw [List.map_eq_nil_iff.mp (hls.trans scan_nil), parseFrom_nil]
      rfl
  | cons text texts ih =>
      obtain ⟨more, hscan, hmore⟩ := scan_intercalate_cons text texts
      rw [hscan] at hls
      rw [readEach]
      rcases gathers_or_refused (h text List.mem_cons_self) with ⟨ts, hgathers⟩
          | ⟨cause, hrefused⟩
      · obtain ⟨rest, hrest, hparse⟩ := hgathers done number ls more hls
        rw [hparse, hgathers.parseAll_eq, ← linesOfTokens_eq_numbered]
        rcases hmore with ⟨rfl, rfl⟩ | rfl
        · rw [List.map_eq_nil_iff.mp hrest, parseFrom_nil,
            List.reverse_reverse]
          cases linesOfTokens number ts with
          | error e => rfl
          | ok lines =>
              show Except.ok (done.reverse ++ lines)
                = .ok (done.reverse ++ (lines ++ []))
              rw [List.append_nil]
        · obtain ⟨l, rest, rfl, hl, hrest⟩ := exists_cons_of_map_reading hrest
          rw [parseFrom_newline done number _ hl, List.reverse_reverse]
          cases linesOfTokens number ts with
          | error e => rfl
          | ok lines =>
              have hothers := ih
                (fun other hother =>
                  h other (List.mem_cons_of_mem text hother))
                (lines.reverse ++ done) (number + 1) hrest
              rw [List.reverse_append, List.reverse_reverse] at hothers
              refine hothers.trans ?_
              cases readEach (number + 1) texts with
              | error e => rfl
              | ok others => exact congrArg Except.ok (List.append_assoc _ _ _)
      · rw [hrefused done number ls more hls, hrefused.parseAll_eq]
        rfl

/-- A source is its lines, each read by itself. -/
theorem parseAll_intercalate {texts : List String}
    (h : ∀ text ∈ texts, '\n' ∉ text.toList) :
    Line.parseAll ("\n".intercalate texts) = readEach 1 texts :=
  (parseFrom_intercalate h [] 1 rfl).trans (id_map _)

theorem readEach_of_ok {texts : List String} {parsed : List (List Line)}
    (h : List.Forall₂ (fun text lines => Line.parseAll text = .ok lines)
      texts parsed)
    (number : Nat) :
    readEach number texts = .ok ((parsed.zipIdx number).flatMap fun a =>
      a.1.map fun line => { line with number := a.2 }) := by
  induction h generalizing number with
  | nil => rfl
  | cons htext _ ih =>
      rw [readEach, htext, ih]
      rfl

theorem readEach_of_error {texts : List String} {k : Nat} {text : String}
    {e : Error} (htext : texts[k]? = some text)
    (he : Line.parseAll text = .error e)
    (hbefore : ∀ j < k, ∀ other, texts[j]? = some other →
      ∃ lines, Line.parseAll other = .ok lines)
    (number : Nat) :
    readEach number texts = .error { e with line := number + k } := by
  induction texts generalizing k number with
  | nil => cases htext
  | cons first texts ih =>
      cases k with
      | zero =>
          cases htext
          rw [readEach, he]
          rfl
      | succ k =>
          obtain ⟨lines, hlines⟩ := hbefore 0 (Nat.succ_pos k) first rfl
          have hrest := ih htext
            (fun j hj other hother =>
              hbefore (j + 1) (Nat.succ_lt_succ hj) other hother) (number + 1)
          rw [readEach, hlines, hrest, Nat.add_assoc, Nat.add_comm 1 k]
          rfl

/-- Reading is line by line, and lines are numbered from one by where they
stand. If every line can be read by itself, the source is read as what they
give, one behind the other and each with its number. Otherwise the error is
that of the first line that cannot be read, with its number. -/
theorem parsing_is_line_local {texts : List String}
    (h : ∀ text ∈ texts, '\n' ∉ text.toList) :
    (∀ parsed : List (List Line),
      List.Forall₂ (fun text lines => Line.parseAll text = .ok lines)
        texts parsed →
        Line.parseAll ("\n".intercalate texts)
          = .ok ((parsed.zipIdx 1).flatMap fun a =>
              a.1.map fun line => { line with number := a.2 }))
      ∧ ∀ (k : Nat) (text : String) (e : Error), texts[k]? = some text →
        Line.parseAll text = .error e →
        (∀ j < k, ∀ other, texts[j]? = some other →
          ∃ lines, Line.parseAll other = .ok lines) →
          Line.parseAll ("\n".intercalate texts)
            = .error { e with line := k + 1 } := by
  rw [parseAll_intercalate h]
  constructor
  · intro parsed hparsed
    exact readEach_of_ok hparsed 1
  · intro k text e htext he hbefore
    rw [readEach_of_error htext he hbefore 1, Nat.add_comm 1 k]

/-- A comment, an empty line and a carriage return between two statements. A
comment with characters that are no token, and two lines that cannot be read,
of which the first decides. -/
theorem parsing_is_line_local_comments :
    Line.parseAll "loop: rjmp loop ; @\r\n\n// @\nret"
        = .ok [⟨1, ["loop"], some (.instruction "rjmp" [.label "loop"])⟩,
          ⟨4, [], some (.instruction "ret" [])⟩]
      ∧ Line.parseAll "nop // @\n\nldi r16,\n@"
        = .error ⟨3, .badSyntax (.expectedOperand none)⟩ := by
  have hread : List.Forall₂ (fun text lines => Line.parseAll text = .ok lines)
      ["loop: rjmp loop ; @\r", "", "// @", "ret"]
      [[⟨1, ["loop"], some (.instruction "rjmp" [.label "loop"])⟩], [], [],
        [⟨1, [], some (.instruction "ret" [])⟩]] := by
    refine .cons ?_ (.cons ?_ (.cons ?_ (.cons ?_ .nil))) <;> decide +kernel
  have hbefore : ∀ j < 2, ∀ other,
      ["nop // @", "", "ldi r16,", "@"][j]? = some other →
      ∃ lines, Line.parseAll other = .ok lines := by
    have hnop : Line.parseAll "nop // @"
        = .ok [⟨1, [], some (.instruction "nop" [])⟩] := by
      decide +kernel
    have hempty : Line.parseAll "" = .ok [] := by decide +kernel
    intro j hj other hother
    interval_cases j
    · cases hother
      exact ⟨_, hnop⟩
    · cases hother
      exact ⟨_, hempty⟩
  have hlast : Line.parseAll "ldi r16,"
      = .error ⟨1, .badSyntax (.expectedOperand none)⟩ := by
    decide +kernel
  have hok := (parsing_is_line_local (by decide)).1 _ hread
  have herror := (parsing_is_line_local (by decide)).2 2 _ _ rfl hlast hbefore
  exact ⟨hok, herror⟩

end Assembly

end AvrFirmware

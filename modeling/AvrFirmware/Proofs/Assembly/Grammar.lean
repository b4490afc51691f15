/-
What a line may look like.

# The grammar

`IsOperand`, `AreOperands`, `IsStatement` and `IsLine` say which tokens
make an operand, some operands between commas, a statement and a line,
and what each stands for. They cut a list of tokens into pieces and do not
say how the pieces are found: a pointer with a plus sign is one rule, a
pointer with a plus sign and a number another.

# The reader

`operand` decides by the next one or two tokens which rule applies. What it
takes is an operand of the grammar (`exists_isOperand`), and an operand
before a comma or the end of the line is taken as a whole
(`operand_of_isOperand`): the tokens that would go on with it are neither.
The same two directions hold of operands between commas, of statements and
of labels, so a line is read exactly if the grammar has it.

# Names

The grammar takes tokens with any names and puts mnemonics in lower case
letter by letter. The lines of a source only hold names that the lexer
reads there (`Line.names_of_parseAll`), so there is no letter outside ASCII
whose case would be another matter.
-/
import AvrFirmware.Proofs.Assembly.Spelling

namespace AvrFirmware

namespace Assembly

-- ================================================================= names

/-- A name is that of a register: the letter in either case and the number in
decimal. -/
def NamesRegister (name : String) (r : Register) : Prop :=
  name = r.text ∨ name = r.name

/-- A name is that of a pointer pair, in either case. -/
def NamesPointer (name : String) (ptr : Pointer) : Prop :=
  name = ptr.name ∨ name = ptr.name.toLower

-- =============================================================== grammar

/-- Tokens that are an operand, and the operand they are. -/
inductive IsOperand : List Token → Operand → Prop
  | register {name : String} {r : Register} (h : NamesRegister name r) :
      IsOperand [.identifier name] (.register r)
  | pointer {name : String} {ptr : Pointer} (h : NamesPointer name ptr) :
      IsOperand [.identifier name] (.pointer ptr .plain)
  | postIncrement {name : String} {ptr : Pointer} (h : NamesPointer name ptr) :
      IsOperand [.identifier name, .plus] (.pointer ptr .postIncrement)
  | displacement {name : String} {ptr : Pointer} (h : NamesPointer name ptr)
      (radix : Radix) (q : Nat) :
      IsOperand [.identifier name, .plus, .number radix q]
        (.displacement ptr q)
  | preDecrement {name : String} {ptr : Pointer} (h : NamesPointer name ptr) :
      IsOperand [.minus, .identifier name] (.pointer ptr .preDecrement)
  /-- A name of neither a register nor a pointer. -/
  | label {name : String} (hregister : ∀ r, ¬ NamesRegister name r)
      (hpointer : ∀ ptr, ¬ NamesPointer name ptr) :
      IsOperand [.identifier name] (.label name)
  | number (radix : Radix) (n : Nat) : IsOperand [.number radix n] (.number n)
  | negative (radix : Radix) (n : Nat) :
      IsOperand [.minus, .number radix n] (.number (-n))
  | forward (radix : Radix) (n : Nat) :
      IsOperand [.dot, .plus, .number radix n] (.relative n)
  | backward (radix : Radix) (n : Nat) :
      IsOperand [.dot, .minus, .number radix n] (.relative (-n))

/-- Tokens that are operands with commas between them, or none at all. -/
def AreOperands (ts : List Token) (os : List Operand) : Prop :=
  ∃ chunks, List.Forall₂ IsOperand chunks os
    ∧ ts = [Token.comma].intercalate chunks

/-- Tokens that are a statement, or none at all. -/
inductive IsStatement : List Token → Option Statement → Prop
  | none : IsStatement [] none
  | instruction {ts : List Token} {os : List Operand} (mnemonic : String)
      (h : AreOperands ts os) :
      IsStatement (.identifier mnemonic :: ts)
        (some (.instruction mnemonic.toLower os))
  | words {ts : List Token} {ns : List Int}
      (h : AreOperands ts (ns.map .number))
      (hrange : ∀ n ∈ ns, -0x8000 ≤ n ∧ n ≤ 0xFFFF) :
      IsStatement (.directive "word" :: ts)
        (some (.words (ns.map UInt16.ofInt)))

/-- The tokens of some labels: a name and a colon each. -/
def labelTokens (labels : List String) : List Token :=
  labels.flatMap fun name => [.identifier name, .colon]

/-- Tokens that are a line: labels and then a statement. -/
def IsLine (ts : List Token) (labels : List String) (s : Option Statement) :
    Prop :=
  ∃ rest, ts = labelTokens labels ++ rest ∧ IsStatement rest s

-- ========================================================= reading names

/-- A numeral that is read starts with a digit, and the digits read so far are
within the limit. -/
theorem exists_digit_of_readFrom {c : Char} {cs : List Char} {limit n v : Nat}
    (h : Numeral.readFrom .decimal limit n (c :: cs) = .ok v) :
    ∃ d < 10, c = Numeral.lowerDigit d ∧ n * 10 + d ≤ limit
      ∧ Numeral.readFrom .decimal limit (n * 10 + d) cs = .ok v := by
  rw [Numeral.readFrom] at h
  split at h
  · cases h
  · next d hd =>
      obtain ⟨hten, hc⟩ := eq_lowerDigit_of_digitValue? hd
      split at h
      · next hle => exact ⟨d, hten, hc, hle, h⟩
      · cases h

theorem digits_decimal (n : Nat) :
    Numeral.digits .decimal n
      = if n < 10 then [n]
        else Numeral.digits .decimal (n / 10) ++ [n % 10] := by
  rw [Numeral.digits]
  rfl

/-- A number below ten is written with one digit. -/
theorem decimal_of_lt {d : Nat} (hd : d < 10) :
    Numeral.decimal d = String.ofList [Numeral.lowerDigit d] := by
  rw [Numeral.decimal, digits_decimal, if_pos hd, List.map_singleton]

/-- A number below a hundred is written with two, of which the first is not
zero. -/
theorem decimal_pair {d e : Nat} (hd : d < 10) (hpos : d ≠ 0) (he : e < 10) :
    Numeral.decimal (d * 10 + e)
      = String.ofList [Numeral.lowerDigit d, Numeral.lowerDigit e] := by
  have hdiv : (d * 10 + e) / 10 = d := by omega
  have hmod : (d * 10 + e) % 10 = e := by omega
  rw [Numeral.decimal, digits_decimal, if_neg (by omega), hdiv, hmod,
    digits_decimal, if_pos hd]
  rfl

/-- A number below thirty-two without leading zeros has one digit or two, and
is written as it is read. -/
theorem decimal_of_readFrom {c : Char} {cs : List Char} {n : Nat}
    (hzero : cs = [] ∨ c ≠ '0')
    (h : Numeral.readFrom .decimal 31 0 (c :: cs) = .ok n) :
    n < 32 ∧ Numeral.decimal n = String.ofList (c :: cs) := by
  obtain ⟨d, hd, rfl, hle, h⟩ := exists_digit_of_readFrom h
  rw [Nat.zero_mul, Nat.zero_add] at h hle
  cases cs with
  | nil =>
      cases h
      exact ⟨by omega, decimal_of_lt hd⟩
  | cons c cs =>
      have hpos : d ≠ 0 := by
        rintro rfl
        rcases hzero with hnil | hc
        · cases hnil
        · exact hc rfl
      obtain ⟨e, he, rfl, hle, h⟩ := exists_digit_of_readFrom h
      cases cs with
      | nil =>
          cases h
          exact ⟨by omega, decimal_pair hd hpos he⟩
      | cons c cs =>
          -- a third digit makes a number of a hundred or more
          obtain ⟨f, -, -, hle, -⟩ := exists_digit_of_readFrom h
          omega

/-- The names that are read as registers are those of the grammar. -/
theorem registerName?_eq_some_iff {name : String} {r : Register} :
    registerName? name = some r ↔ NamesRegister name r := by
  constructor
  · intro h
    unfold registerName? registerOfChars? at h
    split at h
    · next c d ds hchars =>
        split_ifs at h with hshape
        obtain ⟨hletter, hzero⟩ := hshape
        split at h
        · next n hn =>
            cases h
            obtain ⟨hlt, hdecimal⟩ := decimal_of_readFrom hzero hn
            have hname : name = String.ofList (c :: d :: ds) := by
              rw [← hchars, String.ofList_toList]
            have hindex : (Register.ofNat n).toNat = n := Nat.mod_eq_of_lt hlt
            unfold NamesRegister
            rw [Register.text, Register.name, hindex, hdecimal, hname,
              String.ofList_cons]
            rcases hletter with rfl | rfl
            · exact .inl rfl
            · exact .inr rfl
        · cases h
    · cases h
  · have hnames : ∀ n : Fin 32, registerName? (Register.text ⟨n⟩) = some ⟨n⟩
        ∧ registerName? (Register.name ⟨n⟩) = some ⟨n⟩ := by decide +kernel
    obtain ⟨n⟩ := r
    rintro (rfl | rfl)
    · exact (hnames n).1
    · exact (hnames n).2

/-- Each pointer has one letter in lower case. -/
theorem toLower_name (ptr : Pointer) :
    ptr.name.toLower = match ptr with | .x => "x" | .y => "y" | .z => "z" := by
  have hletters : "X".toLower = "x" ∧ "Y".toLower = "y"
      ∧ "Z".toLower = "z" := by decide +kernel
  cases ptr with
  | x => exact hletters.1
  | y => exact hletters.2.1
  | z => exact hletters.2.2

/-- The names that are read as pointers are those of the grammar. -/
theorem pointerName?_eq_some_iff {name : String} {ptr : Pointer} :
    pointerName? name = some ptr ↔ NamesPointer name ptr := by
  unfold NamesPointer
  rw [toLower_name]
  constructor
  · intro h
    unfold pointerName? at h
    split at h <;> cases h
    all_goals first
      | exact .inl rfl
      | exact .inr rfl
  · rintro (rfl | rfl) <;> cases ptr <;> rfl

/-- No pointer has the name of a register. -/
theorem registerName?_of_namesPointer {name : String} {ptr : Pointer}
    (h : NamesPointer name ptr) :
    registerName? name = none := by
  rw [NamesPointer, toLower_name] at h
  rcases h with rfl | rfl <;> cases ptr <;> rfl

-- ====================================================== reading operands

/-- A pointer is read with its step or its displacement. -/
theorem exists_isOperand_pointer {name : String} {ptr : Pointer}
    {ts rest : List Token} {o : Operand} (hname : NamesPointer name ptr)
    (h : pointerOperand ptr ts = (o, rest)) :
    ∃ chunk, .identifier name :: ts = chunk ++ rest ∧ IsOperand chunk o := by
  unfold pointerOperand at h
  split at h <;> cases h
  · exact ⟨_, rfl, .displacement hname _ _⟩
  · exact ⟨_, rfl, .postIncrement hname⟩
  · exact ⟨_, rfl, .pointer hname⟩

/-- A name is a register, or a pointer with what belongs to it, or else a
label. -/
theorem exists_isOperand_name {name : String} {ts rest : List Token}
    {o : Operand} (h : nameOperand name ts = (o, rest)) :
    ∃ chunk, .identifier name :: ts = chunk ++ rest ∧ IsOperand chunk o := by
  unfold nameOperand at h
  split at h
  · next r hr =>
      cases h
      exact ⟨_, rfl, .register (registerName?_eq_some_iff.mp hr)⟩
  · next hr =>
      split at h
      · next ptr hptr =>
          exact exists_isOperand_pointer (pointerName?_eq_some_iff.mp hptr) h
      · next hptr =>
          cases h
          refine ⟨_, rfl, .label ?_ ?_⟩
          · intro r hname
            cases hr.symm.trans (registerName?_eq_some_iff.mpr hname)
          · intro ptr hname
            cases hptr.symm.trans (pointerName?_eq_some_iff.mpr hname)

/-- Behind a minus sign stands a number or a pointer. -/
theorem exists_isOperand_minus {ts rest : List Token} {o : Operand}
    (h : minusOperand ts = .ok (o, rest)) :
    ∃ chunk, .minus :: ts = chunk ++ rest ∧ IsOperand chunk o := by
  unfold minusOperand at h
  split at h
  · split at h
    · next ptr hptr =>
        cases h
        exact ⟨_, rfl, .preDecrement (pointerName?_eq_some_iff.mp hptr)⟩
    · cases h
  · cases h
    exact ⟨_, rfl, .negative _ _⟩
  · cases h
  · cases h

theorem offsetOperand_eq_ok {sign : Int} {ts rest : List Token} {o : Operand}
    (h : offsetOperand sign ts = .ok (o, rest)) :
    ∃ radix n, ts = .number radix n :: rest ∧ o = .relative (sign * n) := by
  unfold offsetOperand at h
  split at h
  · cases h
    exact ⟨_, _, rfl, rfl⟩
  · cases h

/-- Behind a dot stands an offset with its sign. -/
theorem exists_isOperand_dot {ts rest : List Token} {o : Operand}
    (h : dotOperand ts = .ok (o, rest)) :
    ∃ chunk, .dot :: ts = chunk ++ rest ∧ IsOperand chunk o := by
  unfold dotOperand at h
  split at h
  · obtain ⟨radix, n, rfl, rfl⟩ := offsetOperand_eq_ok h
    rw [Int.one_mul]
    exact ⟨_, rfl, .forward radix n⟩
  · obtain ⟨radix, n, rfl, rfl⟩ := offsetOperand_eq_ok h
    rw [Int.neg_one_mul]
    exact ⟨_, rfl, .backward radix n⟩
  · cases h

/-- What is taken as an operand is one. -/
theorem exists_isOperand {ts rest : List Token} {o : Operand}
    (h : operand ts = .ok (o, rest)) :
    ∃ chunk, ts = chunk ++ rest ∧ IsOperand chunk o := by
  unfold operand at h
  split at h
  · exact exists_isOperand_name (Except.ok.inj h)
  · exact exists_isOperand_minus h
  · exact exists_isOperand_dot h
  · cases h
    exact ⟨_, rfl, .number _ _⟩
  · cases h
  · cases h

theorem nameOperand_of_namesPointer {name : String} {ptr : Pointer}
    (h : NamesPointer name ptr) (rest : List Token) :
    nameOperand name rest = pointerOperand ptr rest := by
  rw [nameOperand, registerName?_of_namesPointer h,
    pointerName?_eq_some_iff.mpr h]

/-- An operand before a comma or the end of a line is taken as a whole. -/
theorem operand_of_isOperand {chunk rest : List Token} {o : Operand}
    (h : IsOperand chunk o) (hrest : ∀ t ∈ rest.head?, t = .comma) :
    operand (chunk ++ rest) = .ok (o, rest) := by
  cases h with
  | register hname =>
      rw [List.singleton_append, operand, nameOperand,
        registerName?_eq_some_iff.mpr hname]
  | pointer hname =>
      rw [List.singleton_append, operand, nameOperand_of_namesPointer hname,
        pointerOperand_plain hrest]
  | postIncrement hname =>
      rw [List.cons_append, List.singleton_append, operand,
        nameOperand_of_namesPointer hname, pointerOperand_plus hrest]
  | displacement hname radix q =>
      rw [List.cons_append, operand, nameOperand_of_namesPointer hname]
      rfl
  | preDecrement hname =>
      rw [List.cons_append, List.singleton_append, operand, minusOperand,
        pointerName?_eq_some_iff.mpr hname]
  | @label name hregister hpointer =>
      have hr : registerName? name = none := by
        rw [Option.eq_none_iff_forall_ne_some]
        intro r hr
        exact hregister r (registerName?_eq_some_iff.mp hr)
      have hptr : pointerName? name = none := by
        rw [Option.eq_none_iff_forall_ne_some]
        intro ptr hptr
        exact hpointer ptr (pointerName?_eq_some_iff.mp hptr)
      rw [List.singleton_append, operand, nameOperand, hr, hptr]
  | number radix n => rfl
  | negative radix n => rfl
  | forward radix n =>
      show Except.ok (Operand.relative (1 * n), rest) = _
      rw [Int.one_mul]
  | backward radix n =>
      show Except.ok (Operand.relative (-1 * n), rest) = _
      rw [Int.neg_one_mul]

-- ======================================================= between commas

/-- What is read as operands is cut at its commas into operands of the
grammar. -/
theorem exists_chunks_of_operandsFrom {done os : List Operand}
    {ts : List Token} (h : operandsFrom done ts = .ok os) :
    ∃ chunks os', chunks ≠ [] ∧ List.Forall₂ IsOperand chunks os'
      ∧ ts = [Token.comma].intercalate chunks ∧ os = done.reverse ++ os' := by
  fun_induction operandsFrom done ts with
  | case1 done ts fault hfault => cases h
  | case2 done ts o ho =>
      cases h
      obtain ⟨chunk, rfl, hchunk⟩ := exists_isOperand ho
      refine ⟨[chunk], [o], List.cons_ne_nil _ _, .cons hchunk .nil, ?_,
        List.reverse_cons⟩
      rw [List.intercalate_singleton, List.append_nil]
  | case3 done ts o rest ho ih =>
      obtain ⟨chunk, rfl, hchunk⟩ := exists_isOperand ho
      obtain ⟨chunks, os', hne, hchunks, rfl, rfl⟩ := ih h
      refine ⟨chunk :: chunks, o :: os', List.cons_ne_nil _ _,
        .cons hchunk hchunks, ?_, ?_⟩
      · rw [List.intercalate_cons_of_ne_nil hne, List.append_assoc,
          List.singleton_append]
      · rw [List.reverse_cons, List.append_assoc, List.singleton_append]
  | case4 done ts o t rest ht ho => cases h

/-- Operands of the grammar with commas between them are read one by one. -/
theorem operandsFrom_chunks {chunks : List (List Token)} {os : List Operand}
    (h : List.Forall₂ IsOperand chunks os) (hne : chunks ≠ [])
    (done : List Operand) :
    operandsFrom done ([Token.comma].intercalate chunks)
      = .ok (done.reverse ++ os) := by
  induction h generalizing done with
  | nil => exact absurd rfl hne
  | @cons chunk o chunks os hchunk hchunks ih =>
      by_cases hlast : chunks = []
      · subst hlast
        cases hchunks
        have ho : operand (chunk ++ []) = .ok (o, []) :=
          operand_of_isOperand hchunk (by simp)
        rw [List.append_nil] at ho
        rw [List.intercalate_singleton, operandsFrom_last done ho,
          List.reverse_cons]
      · have ho : operand (chunk ++ .comma :: [Token.comma].intercalate chunks)
            = .ok (o, .comma :: [Token.comma].intercalate chunks) :=
          operand_of_isOperand hchunk (by simp)
        rw [List.intercalate_cons_of_ne_nil hlast, List.append_assoc,
          List.singleton_append, operandsFrom_comma done ho, ih hlast,
          List.reverse_cons, List.append_assoc, List.singleton_append]

/-- An operand starts with a token, and not with a colon. -/
theorem IsOperand.exists_cons {chunk : List Token} {o : Operand}
    (h : IsOperand chunk o) :
    ∃ t ts, chunk = t :: ts ∧ t ≠ .colon := by
  cases h <;> exact ⟨_, _, rfl, by simp⟩

/-- Operands start with no colon. -/
theorem AreOperands.ne_colon {ts : List Token} {os : List Operand}
    (h : AreOperands ts os) :
    ∀ rest, ts ≠ .colon :: rest := by
  obtain ⟨chunks, hchunks, rfl⟩ := h
  intro rest
  cases hchunks with
  | nil => simp
  | @cons chunk o chunks os hchunk hchunks =>
      obtain ⟨t, ts, rfl, ht⟩ := hchunk.exists_cons
      by_cases hlast : chunks = []
      · rw [hlast, List.intercalate_singleton]
        simp [ht]
      · rw [List.intercalate_cons_of_ne_nil hlast]
        simp [ht]

/-- The operands that are read are those of the grammar. -/
theorem operands_eq_ok_iff {ts : List Token} {os : List Operand} :
    operands ts = .ok os ↔ AreOperands ts os := by
  constructor
  · intro h
    unfold operands at h
    split at h
    · cases h
      exact ⟨[], .nil, rfl⟩
    · obtain ⟨chunks, os', -, hchunks, hts, hos⟩ :=
        exists_chunks_of_operandsFrom h
      rw [hos]
      exact ⟨chunks, hchunks, hts⟩
  · rintro ⟨chunks, hchunks, rfl⟩
    by_cases hnone : chunks = []
    · subst hnone
      cases hchunks
      rfl
    · have hread := operandsFrom_chunks hchunks hnone []
      unfold operands
      split
      · next hnil =>
          rw [hnil, operandsFrom] at hread
          cases hread
      · exact hread

-- ============================================================ statements

/-- Data are numbers of sixteen bits, with or without a sign. -/
theorem dataWords_eq_ok_iff {done data : List Word} {os : List Operand} :
    dataWords done os = .ok data
      ↔ ∃ ns : List Int, os = ns.map .number
        ∧ (∀ n ∈ ns, -0x8000 ≤ n ∧ n ≤ 0xFFFF)
        ∧ data = done.reverse ++ ns.map UInt16.ofInt := by
  induction os generalizing done with
  | nil =>
      rw [dataWords, Except.ok.injEq]
      constructor
      · rintro rfl
        exact ⟨[], rfl, by simp, (List.append_nil _).symm⟩
      · rintro ⟨ns, hns, -, rfl⟩
        rw [List.map_eq_nil_iff.mp hns.symm, List.map_nil, List.append_nil]
  | cons o os ih =>
      constructor
      · intro h
        unfold dataWords at h
        split at h
        · next heq => cases heq
        · next n rest heq =>
            cases heq
            split_ifs at h with hn
            obtain ⟨ns, rfl, hrange, rfl⟩ := ih.mp h
            refine ⟨n :: ns, rfl, List.forall_mem_cons.mpr ⟨hn, hrange⟩, ?_⟩
            rw [List.reverse_cons, List.append_assoc, List.singleton_append]
            rfl
        · cases h
      · rintro ⟨ns, hns, hrange, rfl⟩
        obtain ⟨n, ns, rfl, rfl, rfl⟩ := List.map_eq_cons_iff.mp hns.symm
        rw [List.forall_mem_cons] at hrange
        rw [dataWords, if_pos hrange.1]
        refine ih.mpr ⟨ns, rfl, hrange.2, ?_⟩
        rw [List.reverse_cons, List.append_assoc, List.singleton_append]
        rfl

/-- The only directive is the one for data. -/
theorem directive_eq_ok_iff {name : String} {ts : List Token} {s : Statement} :
    directive name ts = .ok s
      ↔ name = "word" ∧ ∃ ns : List Int, AreOperands ts (ns.map .number)
        ∧ (∀ n ∈ ns, -0x8000 ≤ n ∧ n ≤ 0xFFFF)
        ∧ s = .words (ns.map UInt16.ofInt) := by
  unfold directive
  split_ifs with hname
  · rw [and_iff_right hname]
    constructor
    · intro h
      split at h
      · cases h
      · next os hos =>
          split at h
          · cases h
          · next data hdata =>
              cases h
              obtain ⟨ns, rfl, hrange, rfl⟩ := dataWords_eq_ok_iff.mp hdata
              exact ⟨ns, operands_eq_ok_iff.mp hos, hrange, rfl⟩
    · rintro ⟨ns, hos, hrange, rfl⟩
      have hdata : dataWords [] (ns.map .number) = .ok (ns.map UInt16.ofInt) :=
        dataWords_eq_ok_iff.mpr ⟨ns, rfl, hrange, rfl⟩
      simp only [operands_eq_ok_iff.mpr hos, hdata]
  · simp [hname]

/-- The statements that are read are those of the grammar. -/
theorem statement_eq_ok_iff {ts : List Token} {s : Option Statement} :
    statement ts = .ok s ↔ IsStatement ts s := by
  constructor
  · intro h
    unfold statement at h
    split at h
    · cases h
      exact .none
    · split at h
      · cases h
      · next os hos =>
          cases h
          exact .instruction _ (operands_eq_ok_iff.mp hos)
    · split at h
      · cases h
      · next s hs =>
          cases h
          obtain ⟨rfl, ns, hos, hrange, rfl⟩ := directive_eq_ok_iff.mp hs
          exact .words hos hrange
    · cases h
  · intro h
    cases h with
    | none => rfl
    | instruction mnemonic hos =>
        simp only [statement, operands_eq_ok_iff.mpr hos]
    | words hos hrange =>
        simp only [statement,
          directive_eq_ok_iff.mpr ⟨rfl, _, hos, hrange, rfl⟩]

-- ================================================================= lines

/-- What is read as labels is names with a colon behind each. -/
theorem exists_labels_of_labelsFrom {done names : List String}
    {ts rest : List Token} (h : labelsFrom done ts = (names, rest)) :
    ∃ labels, names = done.reverse ++ labels
      ∧ ts = labelTokens labels ++ rest := by
  fun_induction labelsFrom done ts with
  | case1 done name ts ih =>
      obtain ⟨labels, rfl, rfl⟩ := ih h
      refine ⟨name :: labels, ?_, rfl⟩
      rw [List.reverse_cons, List.append_assoc, List.singleton_append]
  | case2 done ts =>
      cases h
      exact ⟨[], (List.append_nil _).symm, rfl⟩

/-- A statement is not taken for a label. -/
theorem labelsFrom_of_isStatement {ts : List Token} {s : Option Statement}
    (h : IsStatement ts s) (done : List String) :
    labelsFrom done ts = (done.reverse, ts) := by
  unfold labelsFrom
  split
  · cases h with
    | instruction mnemonic hos => exact absurd rfl (hos.ne_colon _)
  · rfl

/-- Labels are read one by one. -/
theorem labelsFrom_labelTokens (labels done : List String)
    (rest : List Token) :
    labelsFrom done (labelTokens labels ++ rest)
      = labelsFrom (labels.reverse ++ done) rest := by
  induction labels generalizing done with
  | nil => rfl
  | cons name labels ih =>
      show labelsFrom (name :: done) (labelTokens labels ++ rest) = _
      rw [ih, List.reverse_cons, List.append_assoc, List.singleton_append]

/-- Labels and a statement are told apart. -/
theorem labelled_eq_iff {ts rest : List Token} {labels : List String}
    {s : Option Statement} (h : IsStatement rest s) :
    labelled ts = (labels, rest) ↔ ts = labelTokens labels ++ rest := by
  constructor
  · intro hlabelled
    obtain ⟨labels', rfl, rfl⟩ := exists_labels_of_labelsFrom hlabelled
    rfl
  · rintro rfl
    rw [labelled, labelsFrom_labelTokens, labelsFrom_of_isStatement h,
      List.append_nil, List.reverse_reverse]

/-- A line is read exactly if the grammar has it, and as what the grammar says:
its labels in order, its mnemonic in lower case, its operands in order. -/
theorem line_read_iff_grammar (number : Nat) (ts : List Token) (line : Line) :
    Line.parse number ts = .ok line
      ↔ line.number = number ∧ IsLine ts line.labels line.statement := by
  obtain ⟨n, labels, s⟩ := line
  unfold Line.parse
  constructor
  · intro h
    split at h
    · cases h
    · next s' hs =>
        cases h
        have hstatement := statement_eq_ok_iff.mp hs
        exact ⟨rfl, _, (labelled_eq_iff hstatement).mp rfl, hstatement⟩
  · rintro ⟨rfl, rest, hts, hstatement⟩
    rw [(labelled_eq_iff hstatement).mpr hts,
      statement_eq_ok_iff.mpr hstatement]

example :
    Line.parse 7
        [.identifier "next", .colon, .identifier "LD", .identifier "r0",
          .comma, .identifier "z", .plus]
      = .ok ⟨7, ["next"],
          some (.instruction "ld"
            [.register (.ofNat 0), .pointer .z .postIncrement])⟩ := by
  cbv

-- ================================================== names that are read

/-- The labels of a line have a property, and so did its mnemonic before it
was put in lower case. -/
def Line.Names (P : String → Prop) (line : Line) : Prop :=
  (∀ label ∈ line.labels, P label)
    ∧ ∀ mnemonic os, line.statement = some (.instruction mnemonic os) →
      ∃ name, P name ∧ mnemonic = name.toLower

section Names

variable {P : String → Prop} {number : Nat}

/-- The names of a line are identifiers among its tokens. -/
theorem Line.names_of_parse {ts : List Token} {line : Line}
    (hts : ∀ name, .identifier name ∈ ts → P name)
    (h : Line.parse number ts = .ok line) : line.Names P := by
  unfold Line.parse at h
  split at h
  · cases h
  · next s hs =>
      cases h
      have hstatement := statement_eq_ok_iff.mp hs
      have hsplit := (labelled_eq_iff hstatement).mp rfl
      rw [hsplit] at hts
      constructor
      · intro label hlabel
        refine hts label (List.mem_append_left _ ?_)
        exact List.mem_flatMap.mpr ⟨label, hlabel, List.mem_cons_self⟩
      · rintro mnemonic os rfl
        generalize (labelled ts).2 = rest at hstatement hts
        cases hstatement with
        | instruction name hos =>
            have hname : P name :=
              hts name (List.mem_append_right _ List.mem_cons_self)
            exact ⟨name, hname, rfl⟩

/-- What holds of every identifier that is read holds of the names of every
line, lexeme by lexeme. -/
theorem Line.names_of_parseFrom {done lines : List Line}
    {pending : List Token} {ls : List Lexeme}
    (hdone : ∀ line ∈ done, line.Names P)
    (hpending : ∀ name, .identifier name ∈ pending → P name)
    (hls : ∀ l ∈ ls, ∀ name, l.token = some (.identifier name) → P name)
    (h : Line.parseFrom done number pending ls = .ok lines) :
    ∀ line ∈ lines, line.Names P := by
  fun_induction Line.parseFrom done number pending ls with
  | case1 done number =>
      cases h
      intro line hline
      exact hdone line (List.mem_reverse.mp hline)
  | case2 done number t ts e he => cases h
  | case3 done number t ts line hline =>
      cases h
      have hnames := names_of_parse
        (fun name hname => hpending name (List.mem_reverse.mp hname)) hline
      intro line' hline'
      exact List.forall_mem_cons.mpr ⟨hnames, hdone⟩ line'
        (List.mem_reverse.mp hline')
  | case4 done number pending l rest hl => cases h
  | case5 done number l rest hl ih =>
      exact ih hdone hpending (List.forall_mem_cons.mp hls).2 h
  | case6 done number l rest hl t ts e he => cases h
  | case7 done number l rest hl t ts line hline ih =>
      have hnames := names_of_parse
        (fun name hname => hpending name (List.mem_reverse.mp hname)) hline
      refine ih (List.forall_mem_cons.mpr ⟨hnames, hdone⟩) ?_
        (List.forall_mem_cons.mp hls).2 h
      rintro name ⟨⟩
  | case8 done number pending l rest t ht hl ih =>
      obtain ⟨hfirst, hothers⟩ := List.forall_mem_cons.mp hls
      refine ih hdone ?_ hothers h
      intro name hname
      rcases List.mem_cons.mp hname with rfl | hname
      · exact hfirst name hl
      · exact hpending name hname

/-- The names of every line are identifiers that the lexer reads in the source,
and so in ASCII. -/
theorem Line.names_of_parseAll {source : String} {lines : List Line}
    (h : Line.parseAll source = .ok lines) :
    ∀ line ∈ lines, line.Names fun name =>
      .ok (.identifier name) ∈ scan source.toList
        ∧ ∀ c ∈ name.toList, c.toNat < 128 := by
  refine names_of_parseFrom (List.forall_mem_nil _) ?_ ?_ h
  · rintro name ⟨⟩
  · intro l hl name hname
    have hread : l.reading = .ok (.identifier name) := by
      rw [Lexeme.reading, hname]
    have hscan : .ok (.identifier name) ∈ scan source.toList :=
      List.mem_map.mpr ⟨l, hl, hread⟩
    exact ⟨hscan, ascii_of_isName (lexical_of_mem_scan hscan)⟩

end Names

end Assembly

end AvrFirmware

import HazardTrace.Json.Lexer
import Mathlib.Data.List.Basic
import Mathlib.Data.List.TakeWhile

/-!
# The spelling of JSON

What a JSON text may look like, said without the machines that read it.

* `Escape.Spells s text`: between quotes, `text` stands for the characters `s`. A character may
  stand for itself, or be given by a letter, by its unit or by a pair of surrogates.
* `Lexeme l v`: how a value without parts is written. This adds words and numbers to literals.
* `Lexes text ts`: the text is made up of the tokens `ts`, with blanks between any two of them. A
  lexeme has to be followed by a separator or by nothing.

The main result is `Lexes.tokens?_eq`: the lexer finds the tokens of every text that is spelled in
this way. It is an induction over the spelling (`leads_of_lexes`) with one case for each kind of
token, and each case is a run lemma of its own: `foldlM_number` for numeric characters,
`foldlM_literal` for what stands between quotes.

The lexer reads one character at a time and learns only from the next one that a word or a number
has ended. So what it has read is described up to its unfinished token (`State.Reads`): closing the
state would give these tokens. A separator is then read as if nothing were unfinished
(`State.Reads.step_eq`), and at the end of the text the state is closed. That is the only place
where the lexer's modes have to be told apart.

What a literal denotes is found in two steps, first pieces and then characters, because a character
may be spread over two pieces. `Spells.exists_pieces` does both along the spelling. A single unit is
never taken for half of a pair, as no character has the code of a surrogate
(`isHigh_or_isLow_toNat`).

Two kinds of text are written by the program, and both are spelled: strings (`spells_encode`) and
natural numbers (`lexeme_nat`). The latter needs that digits do not start with a zero
(`head?_toDigits`).
-/

namespace HazardTrace

namespace Json

/-! ### Literals -/

namespace Escape

/-- Between quotes, `text` stands for the characters `s`. -/
inductive Spells : List Char → List Char → Prop
  | nil : Spells [] []
  | plain {c : Char} {s text : List Char} (hquote : c ≠ '"') (hslash : c ≠ '\\') (hc : ¬ c < ' ') :
      Spells s text → Spells (c :: s) (c :: text)
  | letter {e c : Char} {s text : List Char} (he : ofLetter? e = some c) :
      Spells s text → Spells (c :: s) ('\\' :: e :: text)
  | unit {a₁ a₂ a₃ a₄ c : Char} {s text : List Char} (hc : hexUnit? a₁ a₂ a₃ a₄ = some c.toNat) :
      Spells s text → Spells (c :: s) ('\\' :: 'u' :: a₁ :: a₂ :: a₃ :: a₄ :: text)
  | pair {a₁ a₂ a₃ a₄ b₁ b₂ b₃ b₄ c : Char} {high low : Nat} {s text : List Char}
      (ha : hexUnit? a₁ a₂ a₃ a₄ = some high) (hb : hexUnit? b₁ b₂ b₃ b₄ = some low)
      (hhigh : isHigh high = true) (hlow : isLow low = true)
      (hc : c.toNat = 0x10000 + (high - 0xD800) * 0x400 + (low - 0xDC00)) :
      Spells s text → Spells (c :: s)
        ('\\' :: 'u' :: a₁ :: a₂ :: a₃ :: a₄ :: '\\' :: 'u' :: b₁ :: b₂ :: b₃ :: b₄ :: text)

variable {s text : List Char} {ps : List Piece}

/-- A character that stands for itself is a piece. -/
theorem pieces?_plain {c : Char} (hslash : c ≠ '\\') (hc : ¬ c < ' ')
    (h : pieces? text = some ps) : pieces? (c :: text) = some (.char c :: ps) := by
  rw [pieces?.eq_4 c text (fun _ _ _ _ _ he _ ↦ hslash he) fun _ _ he _ ↦ hslash he,
    if_neg (not_or.2 ⟨hslash, hc⟩), h]
  rfl

/-- A backslash and a letter are a piece. No letter is a `u`, which begins a unit. -/
theorem pieces?_letter {e c : Char} (he : ofLetter? e = some c) (h : pieces? text = some ps) :
    pieces? ('\\' :: e :: text) = some (.char c :: ps) := by
  have hu : e ≠ 'u' := by
    rintro rfl
    cases he
  rw [pieces?.eq_3 e text fun _ _ _ _ _ hu' _ ↦ hu hu', he, h]
  rfl

/-- Four hexadecimal digits are a piece, whatever unit they give. -/
theorem pieces?_unit {a₁ a₂ a₃ a₄ : Char} {n : Nat} (hn : hexUnit? a₁ a₂ a₃ a₄ = some n)
    (h : pieces? text = some ps) :
    pieces? ('\\' :: 'u' :: a₁ :: a₂ :: a₃ :: a₄ :: text) = some (.unit n :: ps) := by
  rw [pieces?, hn, h]
  rfl

/-- No character is half of a surrogate pair. -/
theorem isHigh_or_isLow_toNat (c : Char) : (isHigh c.toNat || isLow c.toNat) = false := by
  have hc : c.toNat < 0xD800 ∨ 0xDFFF < c.toNat ∧ c.toNat < 0x110000 := c.valid
  simp only [isHigh, isLow, Bool.or_eq_false_iff, Bool.and_eq_false_iff, decide_eq_false_iff_not]
  omega

/-- The unit of a character gives the character, since it is no half of a pair. -/
theorem join?_unit {c : Char} (h : join? ps = some s) :
    join? (.unit c.toNat :: ps) = some (c :: s) := by
  have hc := isHigh_or_isLow_toNat c
  match ps, h with
  | [], h | .char _ :: _, h =>
    rw [join?, hc, h, Char.ofNat_toNat]
    · rfl
    · simp
  | .unit k :: ps, h =>
    have hhigh : isHigh c.toNat = false := (Bool.or_eq_false_iff.1 hc).1
    rw [join?, hc, hhigh, h, Char.ofNat_toNat]
    rfl

/-- **A literal denotes what it spells.** -/
theorem Spells.exists_pieces (h : Spells s text) :
    ∃ ps, pieces? text = some ps ∧ join? ps = some s := by
  induction h with
  | nil => exact ⟨[], rfl, rfl⟩
  | @plain c s text _ hslash hc _ ih =>
    obtain ⟨ps, hps, hs⟩ := ih
    refine ⟨.char c :: ps, pieces?_plain hslash hc hps, ?_⟩
    rw [join?, hs]
    rfl
  | @letter e c s text he _ ih =>
    obtain ⟨ps, hps, hs⟩ := ih
    refine ⟨.char c :: ps, pieces?_letter he hps, ?_⟩
    rw [join?, hs]
    rfl
  | unit hc _ ih =>
    obtain ⟨ps, hps, hs⟩ := ih
    exact ⟨_, pieces?_unit hc hps, join?_unit hs⟩
  | @pair _ _ _ _ _ _ _ _ c high low s text ha hb hhigh hlow hc _ ih =>
    obtain ⟨ps, hps, hs⟩ := ih
    refine ⟨_, pieces?_unit ha (pieces?_unit hb hps), ?_⟩
    rw [join?, hhigh, hlow, ← hc, hs, Char.ofNat_toNat]
    rfl

/-! ### Escaping -/

/-- A hexadecimal digit has its value. -/
theorem hexDigit?_hexDigit : ∀ n < 16, hexDigit? (hexDigit n) = some n := by
  decide

/-- A code below 256 has two digits behind two zeros. -/
theorem hexUnit?_of_lt {n : Nat} (hn : n < 256) :
    hexUnit? '0' '0' (hexDigit (n / 16)) (hexDigit (n % 16)) = some n := by
  have hzero : hexDigit? '0' = some 0 := by decide
  have hlow := hexDigit?_hexDigit (n % 16) (Nat.mod_lt n (by decide))
  have hhigh := hexDigit?_hexDigit (n / 16) (by omega)
  have hsum : 0 * 4096 + 0 * 256 + n / 16 * 16 + n % 16 = n := by omega
  rw [hexUnit?, hzero, hhigh, hlow]
  exact congrArg some hsum

/-- Each character is written in a way that spells it: by a letter, by its unit if it is a control
character, or as it is. -/
theorem spells_encodeChar (c : Char) (h : Spells s text) :
    Spells (c :: s) (encodeChar c ++ text) := by
  unfold encodeChar
  split_ifs with hquote hslash hb hf hn hr ht hc
  · exact hquote.symm ▸ .letter rfl h
  · exact hslash.symm ▸ .letter rfl h
  · exact hb.symm ▸ .letter rfl h
  · exact hf.symm ▸ .letter rfl h
  · exact hn.symm ▸ .letter rfl h
  · exact hr.symm ▸ .letter rfl h
  · exact ht.symm ▸ .letter rfl h
  · -- the control characters that have no letter
    have hlt : c.toNat < 256 := Nat.lt_trans hc (by decide)
    exact .unit (hexUnit?_of_lt hlt) h
  · exact .plain hquote hslash hc h

/-- The text that is written for a string spells it. -/
theorem spells_encode (s : List Char) : Spells s (encode s) := by
  induction s with
  | nil => exact .nil
  | cons c s ih => exact spells_encodeChar c ih

end Escape

/-! ### Lexemes -/

open Lexer

/-- How a value without parts may be written. -/
inductive Lexeme : List Char → Json → Prop
  | null : Lexeme ['n', 'u', 'l', 'l'] .null
  | true : Lexeme ['t', 'r', 'u', 'e'] (.bool true)
  | false : Lexeme ['f', 'a', 'l', 's', 'e'] (.bool false)
  | num {l : List Char} (h : isNumber l = .true) : Lexeme l (.num (.ofList l))
  | str {s text : List Char} (h : Escape.Spells s text) :
      Lexeme ('"' :: (text ++ ['"'])) (.str (.ofList s))

/-- Blanks and marks end a word or a number. -/
def isSeparator (c : Char) : Bool :=
  isBlank c || isMark c

/-- The text is empty or starts with a character that ends what was before it. -/
def Separated (text : List Char) : Prop :=
  ∀ c ∈ text.head?, isSeparator c = true

/-- The text is made up of the given tokens, with blanks between them. -/
inductive Lexes : List Char → List Token → Prop
  | nil : Lexes [] []
  | blank {c : Char} {text : List Char} {ts : List Token} (hc : isBlank c = true) :
      Lexes text ts → Lexes (c :: text) ts
  | mark {c : Char} {text : List Char} {ts : List Token} (hc : isMark c = true) :
      Lexes text ts → Lexes (c :: text) (.mark c :: ts)
  | scalar {l text : List Char} {v : Json} {ts : List Token} (hl : Lexeme l v)
      (htext : Separated text) : Lexes text ts → Lexes (l ++ text) (.scalar v :: ts)

/-- Text that is followed by a separator, or by nothing, is so after more has been appended that
begins with one. -/
theorem Separated.append {text rest : List Char} (htext : Separated text) (hrest : Separated rest) :
    Separated (text ++ rest) := by
  cases text with
  | nil => exact hrest
  | cons c text => exact htext

/-- Two texts can be put behind one another if the second begins with a separator. -/
theorem Lexes.append {text rest : List Char} {ts us : List Token} (h : Lexes text ts)
    (hrest : Separated rest) (h' : Lexes rest us) : Lexes (text ++ rest) (ts ++ us) := by
  induction h with
  | nil => exact h'
  | blank hc _ ih => exact .blank hc ih
  | mark hc _ ih => exact .mark hc ih
  | @scalar l text v ts hl htext _ ih =>
    rw [List.append_assoc]
    exact .scalar hl (htext.append hrest) ih

/-! ### Numbers -/

namespace Lexer

variable {l : List Char}

theorem isNumeric_of_isDigit {c : Char} (h : c.isDigit = true) : isNumeric c = true := by
  simp [isNumeric, h]

/-- Digits are numeric. -/
theorem isNumeric_of_mem_isDigits (h : isDigits l = true) : ∀ c ∈ l, isNumeric c = true := by
  intro c hc
  have hall := (Bool.and_eq_true_iff.1 h).2
  exact isNumeric_of_isDigit (List.all_eq_true.1 hall c hc)

/-- An exponent consists of numeric characters: the letter, perhaps a sign, and digits. -/
theorem isNumeric_of_mem_isExponent (h : isExponent l = true) : ∀ c ∈ l, isNumeric c = true := by
  have he : ∀ {e : Char}, (e == 'e' || e == 'E') = true → isNumeric e = true := by
    intro e he
    simp only [isNumeric, Bool.or_assoc, he, Bool.or_true]
  revert h
  fun_cases isExponent l with
  | case1 => simp
  | case2 e rest | case3 e rest =>
    intro h
    obtain ⟨hmark, hdigits⟩ := Bool.and_eq_true_iff.1 h
    simp only [List.mem_cons, forall_eq_or_imp]
    exact ⟨he hmark, by decide, isNumeric_of_mem_isDigits hdigits⟩
  | case4 e rest =>
    intro h
    obtain ⟨hmark, hdigits⟩ := Bool.and_eq_true_iff.1 h
    simp only [List.mem_cons, forall_eq_or_imp]
    exact ⟨he hmark, isNumeric_of_mem_isDigits hdigits⟩

/-- Digits and then numeric characters are all numeric. -/
theorem isNumeric_of_mem_dropWhile
    (h : ∀ c ∈ l.dropWhile Char.isDigit, isNumeric c = true) : ∀ c ∈ l, isNumeric c = true := by
  intro c hc
  rw [← List.takeWhile_append_dropWhile (p := Char.isDigit) (l := l), List.mem_append] at hc
  rcases hc with hc | hc
  · exact isNumeric_of_isDigit (List.mem_takeWhile_imp hc)
  · exact h c hc

/-- A fraction, with an exponent or without, consists of numeric characters. -/
theorem isNumeric_of_mem_isFraction (h : isFraction l = true) : ∀ c ∈ l, isNumeric c = true := by
  revert h
  fun_cases isFraction l with
  | case1 rest =>
    intro h
    obtain ⟨-, hexponent⟩ := Bool.and_eq_true_iff.1 h
    simp only [List.mem_cons, forall_eq_or_imp]
    exact ⟨by decide, isNumeric_of_mem_dropWhile (isNumeric_of_mem_isExponent hexponent)⟩
  | case2 => exact isNumeric_of_mem_isExponent

theorem isNumeric_of_mem_isUnsigned (h : isUnsigned l = true) : ∀ c ∈ l, isNumeric c = true := by
  obtain ⟨-, hfraction⟩ := Bool.and_eq_true_iff.1 h
  exact isNumeric_of_mem_dropWhile (isNumeric_of_mem_isFraction hfraction)

/-- A number without sign starts with a digit. -/
theorem exists_isDigit_of_isUnsigned (h : isUnsigned l = true) :
    ∃ c rest, l = c :: rest ∧ c.isDigit = true := by
  obtain ⟨hwhole, -⟩ := Bool.and_eq_true_iff.1 h
  match l with
  | [] => simp at hwhole
  | c :: rest =>
    refine ⟨c, rest, rfl, ?_⟩
    by_contra hc
    rw [List.takeWhile_cons_of_neg hc] at hwhole
    simp at hwhole

/-- A number starts with a digit or a minus sign and has numeric characters only. -/
theorem cases_of_isNumber (h : isNumber l = true) :
    ∃ c rest, l = c :: rest ∧ (c.isDigit || c == '-') = true ∧ ∀ d ∈ rest, isNumeric d = true := by
  revert h
  fun_cases isNumber l with
  | case1 rest => exact fun h ↦ ⟨'-', rest, rfl, rfl, isNumeric_of_mem_isUnsigned h⟩
  | case2 _ =>
    intro h
    obtain ⟨c, rest, rfl, hc⟩ := exists_isDigit_of_isUnsigned h
    exact ⟨c, rest, rfl, by rw [hc]; rfl,
      fun d hd ↦ isNumeric_of_mem_isUnsigned h d (List.mem_cons_of_mem c hd)⟩

/-- The digits of a natural number start with zero only if they are nothing else. -/
theorem head?_toDigits (n : Nat) (hn : 0 < n) : (Nat.toDigits 10 n).head? ≠ some '0' := by
  induction n using Nat.strongRecOn with
  | ind n ih =>
    rcases Nat.lt_or_ge n 10 with hlt | hge
    · rw [Nat.toDigits_of_lt_base hlt]
      have hdigit : ∀ n < 10, 0 < n → [n.digitChar].head? ≠ some '0' := by decide
      exact hdigit n hlt hn
    · have hquot : 0 < n / 10 := Nat.div_pos hge (by decide)
      rw [Nat.toDigits_of_base_le (by decide) hge,
        List.head?_append_of_ne_nil _ Nat.toDigits_ne_nil]
      exact ih (n / 10) (Nat.div_lt_self hn (by decide)) hquot

/-- The decimal form of a natural number is a number: it has digits only, and no zero in front of
others. -/
theorem isNumber_toString (n : Nat) : isNumber (toString n).toList = true := by
  rw [Nat.toString_eq_ofList_toDigits, String.toList_ofList]
  have hdigits : ∀ c ∈ Nat.toDigits 10 n, c.isDigit = true := fun c hc ↦
    Nat.isDigit_of_mem_toDigits (by decide) (by decide) hc
  have hwhole : (Nat.toDigits 10 n).takeWhile Char.isDigit = Nat.toDigits 10 n :=
    List.takeWhile_eq_self_iff.2 hdigits
  have hrest : (Nat.toDigits 10 n).dropWhile Char.isDigit = [] :=
    List.dropWhile_eq_nil_iff.2 hdigits
  have hunsigned : isUnsigned (Nat.toDigits 10 n) = true := by
    rw [isUnsigned, hwhole, hrest]
    rcases Nat.eq_zero_or_pos n with rfl | hn
    · rfl
    · simp [Nat.toDigits_ne_nil, head?_toDigits n hn, isFraction, isExponent]
  match hl : Nat.toDigits 10 n with
  | [] => exact absurd hl Nat.toDigits_ne_nil
  | c :: rest =>
    have hc : c ≠ '-' := by
      rintro rfl
      cases hdigits '-' (hl ▸ List.mem_cons_self)
    rw [isNumber.eq_2 _ fun rest' h ↦ hc (List.cons.inj h).1, ← hl]
    exact hunsigned

end Lexer

/-- A natural number is written as it is spelled. -/
theorem lexeme_nat (n : Nat) : Lexeme (toString n).toList (.nat n) := by
  have h := Lexeme.num (isNumber_toString n)
  rwa [String.ofList_toList] at h

/-! ### What the lexer has read -/

namespace Lexer

variable {tokens us : List Token} {st : State} {text : List Char}

/-- Up to an unfinished word or number, these tokens have been read, latest first. -/
def State.Reads (st : State) (tokens : List Token) : Prop :=
  st.close = some ⟨tokens, .between⟩

/-- From `st` the text is read to the end, and then `us` have been read. -/
def Leads (st : State) (text : List Char) (us : List Token) : Prop :=
  ∃ st', text.foldlM step st = some st' ∧ st'.Reads us

/-- A separator belongs to no word and to no number. -/
theorem not_isLower_of_isSeparator {c : Char} (hc : isSeparator c = true) :
    c.isLower = false ∧ isNumeric c = false := by
  simp only [isSeparator, isBlank, isMark, Bool.or_eq_true, beq_iff_eq] at hc
  rcases hc with (((rfl | rfl) | rfl) | rfl) | (((((rfl | rfl) | rfl) | rfl) | rfl) | rfl) <;>
    decide

/-- A separator is read as if nothing were unfinished. -/
theorem State.Reads.step_eq (h : st.Reads tokens) {c : Char} (hc : isSeparator c = true) :
    step st c = start tokens c := by
  obtain ⟨hlower, hnumeric⟩ := not_isLower_of_isSeparator hc
  obtain ⟨before, mode⟩ := st
  match mode, h with
  | .between, h =>
    obtain rfl : before = tokens := congrArg State.tokens (Option.some.inj h)
    rfl
  | .word read, h =>
    have hclose : State.close ⟨before, .word read⟩ = some ⟨tokens, .between⟩ := h
    rw [step]
    dsimp only
    rw [hlower, if_neg Bool.false_ne_true, hclose]
    rfl
  | .number read, h =>
    have hclose : State.close ⟨before, .number read⟩ = some ⟨tokens, .between⟩ := h
    rw [step]
    dsimp only
    rw [hnumeric, if_neg Bool.false_ne_true, hclose]
    rfl

/-- What the lexer makes of a separated text is the same with a finished or an unfinished token
before it. -/
theorem State.Reads.leads (h : st.Reads tokens) (htext : Separated text)
    (hleads : Leads ⟨tokens, .between⟩ text us) : Leads st text us := by
  match text, htext, hleads with
  | [], _, ⟨st', hst', hreads⟩ =>
    -- at the end of the text the token stays unfinished
    obtain rfl : ⟨tokens, .between⟩ = st' := Option.some.inj hst'
    obtain rfl : tokens = us := congrArg State.tokens (Option.some.inj hreads)
    exact ⟨st, rfl, h⟩
  | c :: text, htext, ⟨st', hst', hreads⟩ =>
    refine ⟨st', ?_, hreads⟩
    rw [List.foldlM_cons, h.step_eq (htext c rfl)]
    exact hst'

theorem start_blank {c : Char} (hc : isBlank c = true) (tokens : List Token) :
    start tokens c = some ⟨tokens, .between⟩ := by
  rw [start, if_pos hc]

theorem start_mark {c : Char} (hc : isMark c = true) (tokens : List Token) :
    start tokens c = some ⟨.mark c :: tokens, .between⟩ := by
  have hblank : isBlank c = false := by
    simp only [isMark, Bool.or_eq_true, beq_iff_eq] at hc
    rcases hc with ((((rfl | rfl) | rfl) | rfl) | rfl) | rfl <;> decide
  rw [start, hblank, if_neg Bool.false_ne_true, if_pos hc]

/-- A digit or a minus sign begins a number: it is neither a separator nor a quote. -/
theorem start_number {c : Char} (hc : (c.isDigit || c == '-') = true) (tokens : List Token) :
    start tokens c = some ⟨tokens, .number [c]⟩ := by
  have hnumeric : isNumeric c = true := by
    rcases Bool.or_eq_true_iff.1 hc with h | h
    · exact isNumeric_of_isDigit h
    · rw [beq_iff_eq.1 h]
      decide
  have hseparator : isSeparator c = false := by
    by_contra h
    obtain ⟨-, hnot⟩ := not_isLower_of_isSeparator (Bool.ne_false_iff.1 h)
    rw [hnumeric] at hnot
    cases hnot
  have hquote : c ≠ '"' := by
    rintro rfl
    cases hc
  obtain ⟨hblank, hmark⟩ := Bool.or_eq_false_iff.1 hseparator
  rw [start, hblank, hmark, if_neg Bool.false_ne_true, if_neg Bool.false_ne_true, if_neg hquote,
    if_pos hc]

/-- Numeric characters join an unfinished number. -/
theorem foldlM_number {l : List Char} (h : ∀ c ∈ l, isNumeric c = true) (tokens : List Token)
    (read : List Char) :
    l.foldlM step ⟨tokens, .number read⟩ = some ⟨tokens, .number (l.reverse ++ read)⟩ := by
  induction l generalizing read with
  | nil => rfl
  | cons c l ih =>
    have hstep : step ⟨tokens, .number read⟩ c = some ⟨tokens, .number (c :: read)⟩ :=
      if_pos (h c List.mem_cons_self)
    rw [List.foldlM_cons, hstep]
    show List.foldlM step ⟨tokens, .number (c :: read)⟩ l = _
    rw [ih (fun d hd ↦ h d (List.mem_cons_of_mem c hd))]
    simp

/-! ### Reading literals -/

/-- Inside a literal all characters are taken but a quote, and a backslash is remembered. -/
theorem step_literal {c : Char} (hquote : c ≠ '"') (hslash : c ≠ '\\') (tokens : List Token)
    (read : List Char) :
    step ⟨tokens, .literal read false⟩ c = some ⟨tokens, .literal (c :: read) false⟩ := by
  have hc : (c == '\\') = false := by simpa using hslash
  show (if c = '"' then _ else some (⟨tokens, .literal (c :: read) (c == '\\')⟩ : State)) = _
  rw [if_neg hquote, hc]

/-- A hexadecimal digit neither ends a literal nor escapes anything. -/
theorem ne_of_hexDigit? {c : Char} {n : Nat} (h : Escape.hexDigit? c = some n) :
    c ≠ '"' ∧ c ≠ '\\' := by
  constructor
  · rintro rfl
    cases h
  · rintro rfl
    cases h

/-- The digits of a unit stay inside a literal. -/
theorem foldlM_unit {a₁ a₂ a₃ a₄ : Char} {n : Nat} (h : Escape.hexUnit? a₁ a₂ a₃ a₄ = some n)
    (tokens : List Token) (read : List Char) :
    ['\\', 'u', a₁, a₂, a₃, a₄].foldlM step ⟨tokens, .literal read false⟩ =
      some ⟨tokens, .literal (a₄ :: a₃ :: a₂ :: a₁ :: 'u' :: '\\' :: read) false⟩ := by
  simp only [Escape.hexUnit?, Option.bind_eq_bind, Option.bind_eq_some_iff] at h
  obtain ⟨n₁, h₁, n₂, h₂, n₃, h₃, n₄, h₄, -⟩ := h
  obtain ⟨hq₁, hs₁⟩ := ne_of_hexDigit? h₁
  obtain ⟨hq₂, hs₂⟩ := ne_of_hexDigit? h₂
  obtain ⟨hq₃, hs₃⟩ := ne_of_hexDigit? h₃
  obtain ⟨hq₄, hs₄⟩ := ne_of_hexDigit? h₄
  show List.foldlM step ⟨tokens, .literal ('u' :: '\\' :: read) false⟩ [a₁, a₂, a₃, a₄] = _
  simp only [List.foldlM_cons, List.foldlM_nil, step_literal, hq₁, hs₁, hq₂, hs₂, hq₃, hs₃, hq₄,
    hs₄, ne_eq, not_false_eq_true, Option.bind_eq_bind, Option.bind_some]
  rfl

/-- What a literal spells holds no quote that would end it. -/
theorem foldlM_literal {s : List Char} (h : Escape.Spells s text) (tokens : List Token)
    (read : List Char) :
    text.foldlM step ⟨tokens, .literal read false⟩ =
      some ⟨tokens, .literal (text.reverse ++ read) false⟩ := by
  induction h generalizing read with
  | nil => rfl
  | @plain c s text hquote hslash _ _ ih =>
    rw [List.foldlM_cons, step_literal hquote hslash]
    show List.foldlM step ⟨tokens, .literal (c :: read) false⟩ text = _
    rw [ih]
    simp
  | @letter e c s text _ _ ih =>
    show List.foldlM step ⟨tokens, .literal (e :: '\\' :: read) false⟩ text = _
    rw [ih]
    simp
  | @unit a₁ a₂ a₃ a₄ c s text hc _ ih =>
    show List.foldlM step _ (['\\', 'u', a₁, a₂, a₃, a₄] ++ text) = _
    rw [List.foldlM_append, foldlM_unit hc]
    show List.foldlM step ⟨tokens, .literal _ false⟩ text = _
    rw [ih]
    simp
  | @pair a₁ a₂ a₃ a₄ b₁ b₂ b₃ b₄ c high low s text ha hb _ _ _ _ ih =>
    show List.foldlM step _
      (['\\', 'u', a₁, a₂, a₃, a₄] ++ (['\\', 'u', b₁, b₂, b₃, b₄] ++ text)) = _
    rw [List.foldlM_append, foldlM_unit ha]
    show List.foldlM step ⟨tokens, .literal _ false⟩ _ = _
    rw [List.foldlM_append, foldlM_unit hb]
    show List.foldlM step ⟨tokens, .literal _ false⟩ text = _
    rw [ih]
    simp

/-- The characters between the quotes denote what they spell. -/
theorem literal?_of_spells {s : List Char} (h : Escape.Spells s text) :
    literal? text = some (.str (.ofList s)) := by
  obtain ⟨ps, hps, hs⟩ := h.exists_pieces
  rw [literal?, hps, Option.map_some, hs]

/-- A value without parts is read to its end. -/
theorem leads_lexeme {l : List Char} {v : Json} (h : Lexeme l v) (tokens : List Token) :
    Leads ⟨tokens, .between⟩ l (.scalar v :: tokens) := by
  cases h with
  | null | true | false => exact ⟨_, rfl, rfl⟩
  | num h =>
    obtain ⟨c, rest, rfl, hc, hrest⟩ := cases_of_isNumber h
    refine ⟨⟨tokens, .number (rest.reverse ++ [c])⟩, ?_, ?_⟩
    · rw [List.foldlM_cons]
      show Option.bind (start tokens c) _ = _
      rw [start_number hc]
      exact foldlM_number hrest tokens [c]
    · have hread : (rest.reverse ++ [c]).reverse = c :: rest := by simp
      rw [State.Reads, State.close]
      dsimp only
      rw [hread, if_pos h]
      rfl
  | @str s text h =>
    refine ⟨⟨.scalar (.str (.ofList s)) :: tokens, .between⟩, ?_, rfl⟩
    show List.foldlM step ⟨tokens, .literal [] false⟩ (text ++ ['"']) = _
    rw [List.foldlM_append, foldlM_literal h]
    show Option.bind (Option.map _ (literal? (text.reverse ++ []).reverse)) _ = _
    rw [List.append_nil, List.reverse_reverse, literal?_of_spells h]
    rfl

/-- **The lexer reads a spelled text to its end**, and finds its tokens behind those it had. -/
theorem leads_of_lexes {ts : List Token} (h : Lexes text ts) (tokens : List Token) :
    Leads ⟨tokens, .between⟩ text (ts.reverse ++ tokens) := by
  induction h generalizing tokens with
  | nil => exact ⟨_, rfl, rfl⟩
  | @blank c text ts hc _ ih =>
    obtain ⟨st, hst, hreads⟩ := ih tokens
    refine ⟨st, ?_, hreads⟩
    rw [List.foldlM_cons]
    show Option.bind (start tokens c) _ = _
    rw [start_blank hc]
    exact hst
  | @mark c text ts hc _ ih =>
    obtain ⟨st, hst, hreads⟩ := ih (.mark c :: tokens)
    refine ⟨st, ?_, by simpa using hreads⟩
    rw [List.foldlM_cons]
    show Option.bind (start tokens c) _ = _
    rw [start_mark hc]
    exact hst
  | @scalar l text v ts hl htext _ ih =>
    -- the lexeme may still be unfinished in `st`; the separator behind it ends it
    obtain ⟨st, hst, hreads⟩ := leads_lexeme hl tokens
    obtain ⟨st', hst', hreads'⟩ := hreads.leads htext (ih (.scalar v :: tokens))
    refine ⟨st', ?_, by simpa using hreads'⟩
    rw [List.foldlM_append, hst]
    exact hst'

end Lexer

/-- **The lexer finds the tokens of a text.** -/
theorem Lexes.tokens?_eq {text : List Char} {ts : List Token} (h : Lexes text ts) :
    tokens? text = some ts := by
  obtain ⟨st, hst, hreads⟩ := leads_of_lexes h []
  have hclose : st.close = some ⟨ts.reverse ++ [], .between⟩ := hreads
  rw [tokens?]
  show Option.bind (List.foldlM Lexer.step ⟨[], .between⟩ text) _ = _
  rw [hst, Option.bind_some, hclose]
  simp

end Json

end HazardTrace

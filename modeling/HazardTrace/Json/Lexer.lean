import HazardTrace.Json.Basic
import HazardTrace.Json.Escape

/-!
# Tokens of JSON

The lexer reads one character at a time. It gathers the characters of a word, a number or a string
literal as far as they go and judges them when they end, so that every token is as long as it can
be.
-/

namespace HazardTrace

namespace Json

/-- A token: a mark of punctuation, or a value without parts. -/
inductive Token where
  | mark (c : Char)
  | scalar (v : Json)
deriving Repr, BEq

namespace Lexer

/-- Blanks separate tokens and mean nothing else. -/
def isBlank (c : Char) : Bool :=
  c == ' ' || c == '\t' || c == '\n' || c == '\r'

/-- The characters of punctuation. -/
def isMark (c : Char) : Bool :=
  c == '[' || c == ']' || c == '{' || c == '}' || c == ',' || c == ':'

/-- The characters that a number is made of. -/
def isNumeric (c : Char) : Bool :=
  c.isDigit || c == '-' || c == '+' || c == '.' || c == 'e' || c == 'E'

/-- At least one digit and nothing else. -/
def isDigits (l : List Char) : Bool :=
  !l.isEmpty && l.all Char.isDigit

/-- The exponent of a number, or nothing. -/
def isExponent : List Char → Bool
  | [] => true
  | e :: '+' :: rest => (e == 'e' || e == 'E') && isDigits rest
  | e :: '-' :: rest => (e == 'e' || e == 'E') && isDigits rest
  | e :: rest => (e == 'e' || e == 'E') && isDigits rest

/-- What may follow the integer part of a number. -/
def isFraction : List Char → Bool
  | '.' :: rest =>
    !(rest.takeWhile Char.isDigit).isEmpty && isExponent (rest.dropWhile Char.isDigit)
  | rest => isExponent rest

/-- A number without its sign: the integer part is zero or does not start with zero. -/
def isUnsigned (l : List Char) : Bool :=
  let whole := l.takeWhile Char.isDigit
  (whole == ['0'] || (!whole.isEmpty && whole.head? != some '0')) &&
    isFraction (l.dropWhile Char.isDigit)

/-- Is this the text of a number? -/
def isNumber : List Char → Bool
  | '-' :: rest => isUnsigned rest
  | l => isUnsigned l

/-- What the characters read last belong to. They are kept latest first. -/
inductive Mode where
  | between
  | word (read : List Char)
  | number (read : List Char)
  /-- Inside a string literal; `escaped` after a backslash. -/
  | literal (read : List Char) (escaped : Bool)
deriving DecidableEq, Repr

/-- The tokens read so far, latest first, and the unfinished one. -/
structure State where
  tokens : List Token := []
  mode : Mode := .between
deriving Repr

/-- The value of a word. -/
def word? (read : List Char) : Option Json :=
  if read = ['n', 'u', 'l', 'l'] then some .null
  else if read = ['t', 'r', 'u', 'e'] then some (.bool true)
  else if read = ['f', 'a', 'l', 's', 'e'] then some (.bool false)
  else none

/-- The value of a string literal, given what stands between its quotes. -/
def literal? (read : List Char) : Option Json :=
  (Escape.pieces? read).map fun pieces ↦
    match Escape.join? pieces with
    | some cs => .str (.ofList cs)
    | none => .illFormed

/-- The state in which a scalar has been read and nothing is unfinished. -/
def State.emit (st : State) (v : Json) : State :=
  ⟨.scalar v :: st.tokens, .between⟩

/-- Ends the unfinished word or number. A string literal ends at its quote only. -/
def State.close (st : State) : Option State :=
  match st.mode with
  | .between => some st
  | .word read => (word? read.reverse).map st.emit
  | .number read =>
    if isNumber read.reverse then some (st.emit (.num (.ofList read.reverse))) else none
  | .literal _ _ => none

/-- Reads a character that starts something new. -/
def start (tokens : List Token) (c : Char) : Option State :=
  if isBlank c then some ⟨tokens, .between⟩
  else if isMark c then some ⟨.mark c :: tokens, .between⟩
  else if c = '"' then some ⟨tokens, .literal [] false⟩
  else if c.isDigit || c == '-' then some ⟨tokens, .number [c]⟩
  else if c.isLower then some ⟨tokens, .word [c]⟩
  else none

/-- Reads one character. -/
def step (st : State) (c : Char) : Option State :=
  match st.mode with
  | .between => start st.tokens c
  | .word read =>
    if c.isLower then some { st with mode := .word (c :: read) }
    else st.close.bind fun st ↦ start st.tokens c
  | .number read =>
    if isNumeric c then some { st with mode := .number (c :: read) }
    else st.close.bind fun st ↦ start st.tokens c
  | .literal read true => some { st with mode := .literal (c :: read) false }
  | .literal read false =>
    if c = '"' then (literal? read.reverse).map st.emit
    else some { st with mode := .literal (c :: read) (c == '\\') }

end Lexer

/-- The tokens of a text. -/
def tokens? (text : List Char) : Option (List Token) := do
  let st ← text.foldlM Lexer.step {}
  let st ← st.close
  return st.tokens.reverse

end Json

end HazardTrace

import HazardTrace.Pattern.Basic
import HazardTrace.Text

/-!
# Reading patterns

A pattern is read from left to right. What is open, a group or a class within a class, is kept on a
stack. A pattern may be switched to a verbose form, in which blanks and comments stand for nothing:
they may then stand between all parts, also within a class or between the digits of a code.

Two things of regular expressions are refused here: a repetition with a count, since the places
where patterns are given leave no way to write the brace that closes it, and classes of characters
by a property of Unicode.
-/

namespace HazardTrace

namespace Pattern

/-! ### Blanks -/

/-- The text behind blanks and comments. A comment runs from a hash sign to the end of the line. -/
def skipBlanks : (inComment : Bool) → List Char → List Char
  | _, [] => []
  | true, c :: cs => skipBlanks (c != '\n') cs
  | false, c :: cs =>
    if Text.isBlank c then skipBlanks false cs
    else if c = '#' then skipBlanks true cs
    else c :: cs

/-- The text behind what stands for nothing. -/
def skip (verbose : Bool) (text : List Char) : List Char :=
  if verbose then skipBlanks false text else text

theorem length_skipBlanks_le (inComment : Bool) (text : List Char) :
    (skipBlanks inComment text).length ≤ text.length := by
  fun_induction skipBlanks inComment text with
  | case1 => simp
  | case2 c cs ih => simp only [List.length_cons]; omega
  | case3 c cs _ ih => simp only [List.length_cons]; omega
  | case4 cs _ ih => simp only [List.length_cons]; omega
  | case5 => simp

theorem length_skip_le (verbose : Bool) (text : List Char) :
    (skip verbose text).length ≤ text.length := by
  unfold skip
  split
  · exact length_skipBlanks_le false text
  · exact Nat.le_refl _

/-- The next character that counts, for a look ahead. Of a comment only the sign at its start is
passed over. If nothing else is left, the next character counts as it is. -/
def peek (verbose : Bool) (text : List Char) : Option Char :=
  if !verbose then text.head?
  else
    let behind :=
      match text.dropWhile Text.isBlank with
      | '#' :: rest => rest.dropWhile Text.isBlank
      | rest => rest
    behind.head? <|> text.head?

/-! ### Escapes -/

/-- The value of a hexadecimal digit. -/
def hexDigit? (c : Char) : Option Nat :=
  if c.isDigit then some (c.toNat - '0'.toNat)
  else if 'a'.toNat ≤ c.toNat ∧ c.toNat ≤ 'f'.toNat then some (c.toNat - 'a'.toNat + 10)
  else if 'A'.toNat ≤ c.toNat ∧ c.toNat ≤ 'F'.toNat then some (c.toNat - 'A'.toNat + 10)
  else none

/-- The value of `n` hexadecimal digits, behind a value that has been read. -/
def hexValue? (verbose : Bool) : (n value : Nat) → List Char → Option (Nat × List Char)
  | 0, value, text => some (value, text)
  | _ + 1, _, [] => none
  | n + 1, value, c :: cs => do
    hexValue? verbose n (value * 16 + (← hexDigit? c)) (skip verbose cs)

/-- The character with a code of `n` hexadecimal digits. -/
def code? (verbose : Bool) (n : Nat) (text : List Char) : Option (Pattern × List Char) := do
  let (value, rest) ← hexValue? verbose n 0 (skip verbose text)
  if value.isValidChar then some (.letter ⟨Char.ofNat value, n == 2⟩, rest) else none

/-- The characters that have a letter of their own behind a backslash. -/
def controls : List (Char × Char) :=
  [('a', '\x07'), ('f', '\x0c'), ('t', '\t'), ('n', '\n'), ('r', '\r'), ('v', '\x0b')]

/-- Reads what follows a backslash. -/
def escape? (verbose : Bool) : List Char → Option (Pattern × List Char)
  | [] => none
  | c :: rest =>
    if c = 'x' then code? verbose 2 rest
    else if c = 'u' then code? verbose 4 rest
    else if c = 'U' then code? verbose 8 rest
    else if "dsw".toList.contains c then some (.kind false, rest)
    else if "DSW".toList.contains c then some (.kind true, rest)
    else if "Az".toList.contains c then some (.anchor, rest)
    else if "bB<>".toList.contains c then some (.edge, rest)
    else
      match controls.lookup c with
      | some control => some (.letter ⟨control, false⟩, rest)
      | none =>
        if c.isAlphanum ∨ 128 ≤ c.toNat then none else some (.letter ⟨c, false⟩, rest)

/-! ### Character classes -/

/-- The names of character classes within a class. -/
def classNames : List String :=
  ["alnum", "alpha", "ascii", "blank", "cntrl", "digit", "graph", "lower", "print", "punct",
    "space", "upper", "word", "xdigit"]

/-- Reads a class with a name, after its opening bracket. -/
def namedClass? : List Char → Option (Members × List Char)
  | ':' :: text =>
    let negated := text.head? == some '^'
    let text := if negated then text.drop 1 else text
    let name := text.takeWhile (· != ':')
    match text.drop name.length with
    | ':' :: ']' :: rest =>
      if classNames.contains (.ofList name) then some (.named negated, rest) else none
    | _ => none
  | _ => none

/-- Reads dashes, which stand for themselves at the start of a class. -/
def dashes (verbose : Bool) (found : List Members) (text : List Char) :
    List Members × List Char :=
  match text with
  | '-' :: rest => dashes verbose (.letter ⟨'-', false⟩ :: found) (skip verbose rest)
  | _ => (found, text)
termination_by text.length
decreasing_by
  have := length_skip_le verbose rest
  simp only [List.length_cons]
  omega

/-- The start of a class, after its opening bracket. -/
structure ClassStart where
  negated : Bool
  parts : List Members
  rest : List Char

/-- Reads the start of a class: the sign that negates it, and dashes or a closing bracket that stand
for themselves. -/
def classStart (verbose : Bool) (text : List Char) : ClassStart :=
  let text := skip verbose text
  let negated := text.head? == some '^'
  let text := if negated then skip verbose (text.drop 1) else text
  match text with
  | ']' :: rest => ⟨negated, [.letter ⟨']', false⟩], skip verbose rest⟩
  | _ =>
    let (parts, rest) := dashes verbose [] text
    ⟨negated, parts, rest⟩

/-- Reads one member of a class, as a pattern. -/
def member? (verbose : Bool) : List Char → Option (Pattern × List Char)
  | [] => none
  | '\\' :: text => escape? verbose text
  | c :: rest => some (.letter ⟨c, false⟩, rest)

/-- The members that a pattern within a class stands for. -/
def members? : Pattern → Option Members
  | .letter l => some (.letter l)
  | .kind negated => some (.kind negated)
  | _ => none

/-- Reads one member of a class, or a range between two. A dash before the closing bracket or
before another dash makes no range. -/
def range? (verbose : Bool) (text : List Char) : Option (Members × List Char) := do
  let (low, rest) ← member? verbose text
  let rest := skip verbose rest
  match rest with
  | '-' :: next =>
    if peek verbose next == some ']' || peek verbose next == some '-' then
      return (← members? low, rest)
    else
      let (high, rest) ← member? verbose (skip verbose next)
      match low, high with
      | .letter low, .letter high =>
        if low.char.toNat ≤ high.char.toNat then some (.range low high, rest) else none
      | _, _ => none
  | _ => return (← members? low, rest)

/-- A class that is being read. -/
structure OpenClass where
  negated : Bool
  /-- The class before the last operation. -/
  left : Option Members := none
  /-- The parts since then, last first. -/
  parts : List Members

/-- All members of a class that is being read. -/
def OpenClass.members (c : OpenClass) : Members :=
  .join c.left (.gather c.parts)

/-- A class with one more part. -/
def OpenClass.add (c : OpenClass) (m : Members) : OpenClass :=
  { c with parts := m :: c.parts }

/-- Reads a class to its end. `outer` are the classes around it, innermost first. The number bounds
the number of steps. -/
def class? (verbose : Bool) : Nat → List OpenClass → OpenClass → List Char →
    Option (Pattern × List Char)
  | 0, _, _, _ => none
  | steps + 1, outer, c, text =>
    match skip verbose text with
    | [] => none
    | '[' :: rest =>
      match namedClass? rest with
      | some (m, rest) => class? verbose steps outer (c.add m) rest
      | none =>
        let start := classStart verbose rest
        class? verbose steps (c :: outer) { start with } start.rest
    | ']' :: rest =>
      match outer with
      | [] => some (.charClass c.negated c.members, rest)
      | o :: outer => class? verbose steps outer (o.add (.nested c.negated c.members)) rest
    | '&' :: '&' :: rest | '-' :: '-' :: rest | '~' :: '~' :: rest =>
      class? verbose steps outer { c with left := some c.members, parts := [] } rest
    | text => do
      let (m, rest) ← range? verbose text
      class? verbose steps outer (c.add m) rest

/-! ### Groups -/

/-- Can flags be read? Each is given once, and a dash stands before the flags it switches off. -/
def areSwitches (switches : List Char) : Bool :=
  switches.all (fun c ↦ "imsUuRx-".toList.contains c && switches.count c == 1) &&
    switches.getLast? != some '-'

/-- Can a group have this name? -/
def isGroupName : List Char → Bool
  | [] => false
  | c :: rest =>
    (c == '_' || Text.isAlphabetic c) &&
      rest.all fun c ↦ "_.[]".toList.contains c || Text.isAlphanumeric c

/-- What an opening parenthesis starts. -/
inductive Opening where
  | group (switches : List Char) (name : Option (List Char))
  | flags (switches : List Char)

/-- Reads the name of a group, to the bracket behind it. -/
def groupName? (text : List Char) : Option (Opening × List Char) :=
  let name := text.takeWhile (· != '>')
  match text.drop name.length with
  | '>' :: rest => if isGroupName name then some (.group [] (some name), rest) else none
  | _ => none

/-- Reads what follows an opening parenthesis. -/
def opening? : List Char → Option (Opening × List Char)
  | '?' :: 'P' :: '<' :: text | '?' :: '<' :: text => groupName? text
  | '?' :: text =>
    let switches := text.takeWhile fun c ↦ c != ':' && c != ')'
    if !areSwitches switches then none
    else
      match text.drop switches.length with
      | ':' :: rest => some (.group switches none, rest)
      | ')' :: rest => if switches.isEmpty then none else some (.flags switches, rest)
      | _ => none
  | text => some (.group [] none, text)

/-! ### Whole patterns -/

/-- What has been read of a group, or of the whole pattern. -/
structure Part where
  verbose : Bool := false
  /-- The patterns in a row since the last bar, last first. -/
  row : List Pattern := []
  /-- The patterns before the last bar, last first. -/
  branches : List Pattern := []

/-- The pattern that a part stands for. -/
def Part.pattern (p : Part) : Pattern :=
  inChoice (inSequence p.row :: p.branches)

/-- A part with one more pattern. -/
def Part.add (part : Part) (p : Pattern) : Part :=
  { part with row := p :: part.row }

/-- Where the reading of a pattern stands. -/
structure State where
  part : Part := {}
  /-- The groups that are open, innermost first, each with the part around it and its flags. -/
  outer : List (Part × List Char) := []
  names : List (List Char) := []

/-- A state with one more pattern. -/
def State.add (s : State) (p : Pattern) : State :=
  { s with part := s.part.add p }

/-- A state in which the last pattern is repeated. -/
def State.repeat? (s : State) : Option State :=
  match s.part.row with
  | [] => none
  | p :: row =>
    if p.isRepeatable then some { s with part := { s.part with row := .repeated p :: row } }
    else none

/-- A state behind an opening parenthesis. Names of groups are given once. -/
def State.open? (s : State) : Opening → Option State
  | .flags switches =>
    let part := { s.part with verbose := switched 'x' switches s.part.verbose }
    some { s with part := part.add (.flags switches) }
  | .group switches name =>
    if s.names.any fun n ↦ name == some n then none
    else some {
      part := { verbose := switched 'x' switches s.part.verbose }
      outer := (s.part, switches) :: s.outer
      names := name.toList ++ s.names }

/-- A state behind a closing parenthesis. -/
def State.close? (s : State) : Option State :=
  match s.outer with
  | [] => none
  | (part, switches) :: outer =>
    some { s with part := part.add (.group switches s.part.pattern), outer }

/-- Reads a pattern on from a state. The number bounds the number of steps. -/
def read? : Nat → State → List Char → Option Pattern
  | 0, _, _ => none
  | steps + 1, s, text =>
    let verbose := s.part.verbose
    match skip verbose text with
    | [] => if s.outer.isEmpty then some s.part.pattern else none
    | '(' :: text => do
      let (opening, rest) ← opening? (skip verbose text)
      read? steps (← s.open? opening) rest
    | ')' :: rest => do read? steps (← s.close?) rest
    | '|' :: rest =>
      let part := { s.part with row := [], branches := inSequence s.part.row :: s.part.branches }
      read? steps { s with part } rest
    | '*' :: '?' :: rest | '+' :: '?' :: rest | '?' :: '?' :: rest
    | '*' :: rest | '+' :: rest | '?' :: rest => do read? steps (← s.repeat?) rest
    | '{' :: _ => none
    | '[' :: text => do
      let start := classStart verbose text
      let (p, rest) ← class? verbose (text.length + 1) [] { start with } start.rest
      read? steps (s.add p) rest
    | '\\' :: text => do
      let (p, rest) ← escape? verbose text
      read? steps (s.add p) rest
    | '.' :: rest => read? steps (s.add .any) rest
    | '^' :: rest | '$' :: rest => read? steps (s.add .anchor) rest
    | c :: rest => read? steps (s.add (.letter ⟨c, false⟩)) rest

/-- Reads a pattern. -/
def parse? (text : List Char) : Option Pattern :=
  read? (text.length + 1) {} text

end Pattern

end HazardTrace

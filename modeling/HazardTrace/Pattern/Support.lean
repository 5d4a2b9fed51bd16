import HazardTrace.Pattern.Reader

/-!
# Support for patterns

Which patterns can be used. There are no tables of Unicode properties, so the word characters, the
digits and the blanks of Unicode are not known, nor is which of its letters differ only in case. A
pattern may leave Unicode aside. It then has to keep to text all the same: it must not match a byte
that is no character, so nothing may be negated and there is no dot.

The edges of words are known only without Unicode. A pattern that asks for others is well formed but
not supported, and that is a fault of its own.
-/

namespace HazardTrace

namespace Pattern

/-- Why a pattern cannot be used. -/
inductive Fault where
  | unusable
  | wordEdge
deriving DecidableEq, Repr

/-- The wording of a fault. -/
def Fault.message : Fault → String
  | .unusable => "error building NFA"
  | .wordEdge =>
    "unsupported regex feature for DFAs: cannot build DFAs for regexes with Unicode word " ++
      "boundaries; switch to ASCII word boundaries, or heuristically enable Unicode word " ++
      "boundaries or use a different regex engine"

/-- How deep patterns may be nested. -/
def depthLimit : Nat := 250

/-- The flags in force at some point of a pattern. -/
structure Mode where
  ignoresCase : Bool := false
  unicode : Bool := true
deriving DecidableEq, Repr

/-- A mode after some switches. -/
def Mode.switch (m : Mode) (switches : List Char) : Mode where
  ignoresCase := switched 'i' switches m.ignoresCase
  unicode := switched 'u' switches m.unicode

/-- Can a character be a member of a class? -/
def Mode.holds (m : Mode) (l : Letter) : Bool :=
  if m.unicode then !m.ignoresCase else l.char.toNat < 128

/-- Can a character stand for itself outside of classes? -/
def Mode.accepts (m : Mode) (l : Letter) : Bool :=
  if m.unicode then !m.ignoresCase else !l.asByte || l.char.toNat < 128

mutual

/-- Can a class be used? -/
def Members.isSupported (m : Mode) : Members → Bool
  | .empty => true
  | .letter l => m.holds l
  | .range low high => m.holds low && m.holds high
  | .named negated => if m.unicode then !m.ignoresCase else !negated
  | .kind negated => !m.unicode && !negated
  | .nested negated inner => (m.unicode || !negated) && inner.isSupported m
  | .union parts => Members.areSupported m parts
  | .combined left right => left.isSupported m && right.isSupported m

/-- Can all of some classes be used? -/
def Members.areSupported (m : Mode) : List Members → Bool
  | [] => true
  | c :: cs => c.isSupported m && Members.areSupported m cs

end

/-- What is found when a pattern is gone through. -/
structure Survey where
  /-- The mode behind the pattern. -/
  mode : Mode
  /-- Has an edge of a word been asked for under Unicode? -/
  wordEdge : Bool := false
deriving DecidableEq, Repr

/-- Goes on if a condition holds. -/
def Survey.require (s : Survey) (condition : Bool) : Option Survey :=
  if condition then some s else none

mutual

/-- Goes through a pattern; `none` if it cannot be used. -/
def survey? (s : Survey) : Pattern → Option Survey
  | .empty => some s
  | .flags switches => some { s with mode := s.mode.switch switches }
  | .letter l => s.require (s.mode.accepts l)
  | .any => s.require s.mode.unicode
  | .anchor => some s
  | .edge => some { s with wordEdge := s.wordEdge || s.mode.unicode }
  | .kind negated => s.require (!s.mode.unicode && !negated)
  | .charClass negated members =>
    s.require ((s.mode.unicode || !negated) && members.isSupported s.mode)
  | .repeated p => survey? s p
  | .group switches p => do
    let inner ← survey? { s with mode := s.mode.switch switches } p
    return { inner with mode := s.mode }
  | .sequence ps => surveyAll? s ps
  | .choice ps => surveyAll? s ps

/-- Goes through some patterns, one after the other. -/
def surveyAll? (s : Survey) : List Pattern → Option Survey
  | [] => some s
  | p :: ps => do surveyAll? (← survey? s p) ps

end

/-- What is wrong with a pattern, if anything is. -/
def fault? (text : List Char) : Option Fault :=
  match parse? text with
  | none => some .unusable
  | some p =>
    if depthLimit < p.depth then some .unusable
    else
      match survey? { mode := {} } p with
      | none => some .unusable
      | some s => if s.wordEdge then some .wordEdge else none

end Pattern

end HazardTrace

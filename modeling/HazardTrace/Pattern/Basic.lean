/-!
# Patterns

A pattern is a regular expression with character classes, groups, repetitions and flags. This module
holds its form and how deep it is nested. `Pattern.Reader` reads patterns, and `Pattern.Support`
says which of them can be used.
-/

namespace HazardTrace

namespace Pattern

/-- A character of a pattern that stands for itself. -/
structure Letter where
  char : Char
  /-- Was it written as a byte, with two hexadecimal digits? -/
  asByte : Bool := false
deriving DecidableEq, Repr

/-- What a character class holds. -/
inductive Members where
  | empty
  | letter (l : Letter)
  | range (low high : Letter)
  /-- A class with a name, such as the lower case letters of ASCII. -/
  | named (negated : Bool)
  /-- The word characters, the digits or the blanks. -/
  | kind (negated : Bool)
  | nested (negated : Bool) (inner : Members)
  | union (parts : List Members)
  /-- An intersection or a difference. -/
  | combined (left right : Members)

end Pattern

/-- A pattern. -/
inductive Pattern where
  | empty
  /-- Flags for what follows. Those behind a dash are switched off. -/
  | flags (switches : List Char)
  | letter (l : Pattern.Letter)
  /-- A dot. -/
  | any
  /-- An end of a line or of the text. -/
  | anchor
  /-- An edge of a word, or a place that is none. -/
  | edge
  | kind (negated : Bool)
  | charClass (negated : Bool) (members : Pattern.Members)
  | repeated (p : Pattern)
  /-- A group, with flags that hold within it. -/
  | group (switches : List Char) (p : Pattern)
  | sequence (ps : List Pattern)
  | choice (ps : List Pattern)

namespace Pattern

mutual

/-- How deep a class is nested. -/
def Members.depth : Members → Nat
  | .nested _ inner => inner.depth + 1
  | .union parts => Members.deepest parts + 1
  | .combined left right => Nat.max left.depth right.depth + 1
  | _ => 0

/-- The depth of the deepest of some classes. -/
def Members.deepest : List Members → Nat
  | [] => 0
  | m :: ms => Nat.max m.depth (Members.deepest ms)

end

mutual

/-- How deep a pattern is nested. -/
def depth : Pattern → Nat
  | .charClass _ members => members.depth + 1
  | .repeated p => p.depth + 1
  | .group _ p => p.depth + 1
  | .sequence ps => deepest ps + 1
  | .choice ps => deepest ps + 1
  | _ => 0

/-- The depth of the deepest of some patterns. -/
def deepest : List Pattern → Nat
  | [] => 0
  | p :: ps => Nat.max p.depth (deepest ps)

end

/-- One class of several, given last first. -/
def Members.gather : List Members → Members
  | [] => .empty
  | [m] => m
  | ms => .union ms.reverse

/-- What an operation makes of the class before it, if there is one, and the class behind it. -/
def Members.join (left : Option Members) (right : Members) : Members :=
  match left with
  | none => right
  | some left => .combined left right

/-- One pattern of several in a row, given last first. -/
def inSequence : List Pattern → Pattern
  | [] => .empty
  | [p] => p
  | ps => .sequence ps.reverse

/-- One pattern of several to choose from, given last first. -/
def inChoice : List Pattern → Pattern
  | [] => .empty
  | [p] => p
  | ps => .choice ps.reverse

/-- Can a pattern be repeated? -/
def isRepeatable : Pattern → Bool
  | .empty => false
  | .flags _ => false
  | _ => true

/-- A flag after some switches. -/
def switched (flag : Char) (switches : List Char) (before : Bool) : Bool :=
  let on := switches.takeWhile (· != '-')
  on.contains flag || (before && !(switches.drop on.length).contains flag)

end Pattern

end HazardTrace

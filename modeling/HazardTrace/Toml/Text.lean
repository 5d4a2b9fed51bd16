/-!
# Strings in settings

A basic string stands in double quotes and has escapes; a literal string stands in single quotes and
has none. Either may be spread over lines in triple quotes. Each reader starts behind the opening
quote and gives the characters of the string and what follows the closing one.
-/

namespace HazardTrace

namespace Toml

namespace Text

/-- Characters that may stand in a comment or a string: a tab, or anything that is no control
character. -/
def isVisible (c : Char) : Bool :=
  c == '\t' || (' ' ≤ c && c != '\x7f')

/-- The value of hexadecimal digits. -/
def hexValue? (l : List Char) : Option Nat :=
  l.foldlM (fun n c ↦
    if c.isDigit then some (n * 16 + (c.toNat - '0'.toNat))
    else if 'a' ≤ c ∧ c ≤ 'f' then some (n * 16 + (c.toNat - 'a'.toNat + 10))
    else if 'A' ≤ c ∧ c ≤ 'F' then some (n * 16 + (c.toNat - 'A'.toNat + 10))
    else none) 0

/-- The character with the code that hexadecimal digits denote. -/
def charOf? (digits : List Char) : Option Char := do
  let n ← hexValue? digits
  if n.isValidChar then some (Char.ofNat n) else none

/-- Puts a character in front of what has been read. -/
def prepend (c : Char) (read : Option (List Char × List Char)) :
    Option (List Char × List Char) :=
  read.map fun (cs, rest) ↦ (c :: cs, rest)

/-- The character of a one-letter escape. -/
def ofLetter? : Char → Option Char
  | 'b' => some '\x08'
  | 't' => some '\t'
  | 'n' => some '\n'
  | 'f' => some '\x0c'
  | 'r' => some '\r'
  | '"' => some '"'
  | '\\' => some '\\'
  | _ => none

/-- A basic string on one line. -/
def basic? : List Char → Option (List Char × List Char)
  | [] => none
  | '"' :: rest => some ([], rest)
  | '\\' :: 'u' :: a :: b :: c :: d :: rest =>
    (charOf? [a, b, c, d]).bind fun x ↦ prepend x (basic? rest)
  | '\\' :: 'U' :: a :: b :: c :: d :: e :: f :: g :: h :: rest =>
    (charOf? [a, b, c, d, e, f, g, h]).bind fun x ↦ prepend x (basic? rest)
  | '\\' :: c :: rest => (ofLetter? c).bind fun x ↦ prepend x (basic? rest)
  | c :: rest => if isVisible c && c != '\\' then prepend c (basic? rest) else none

/-- A literal string on one line. -/
def literal? : List Char → Option (List Char × List Char)
  | [] => none
  | '\'' :: rest => some ([], rest)
  | c :: rest => if isVisible c then prepend c (literal? rest) else none

/-- The end of a string in triple quotes, if it is here: three quotes, and up to two more before
them that belong to the string. -/
def closing? (quote : Char) (l : List Char) : Option (List Char × List Char) :=
  let run := (l.takeWhile (· == quote)).length
  if 3 ≤ run ∧ run ≤ 5 then some (List.replicate (run - 3) quote, l.drop run) else none

/-- A line end is written in one way inside a string, whichever way it is written in the file. -/
def unifyLines : List Char → List Char
  | '\r' :: '\n' :: rest => '\n' :: unifyLines rest
  | c :: rest => c :: unifyLines rest
  | [] => []

/-- Does a backslash before this text join lines? Only blanks may stand before the line end. -/
def joinsLines (l : List Char) : Bool :=
  (l.dropWhile fun c ↦ c == ' ' || c == '\t').head? == some '\n'

/-- What a string in triple quotes is being read as. -/
inductive Place where
  | body
  /-- Between a joining backslash and the next visible character. -/
  | joined
deriving DecidableEq, Repr

/-- A basic string in triple quotes, with unified line ends. -/
def multilineBasic? : Place → List Char → Option (List Char × List Char)
  | _, [] => none
  | .joined, '\n' :: rest => multilineBasic? .joined rest
  | .joined, ' ' :: rest => multilineBasic? .joined rest
  | .joined, '\t' :: rest => multilineBasic? .joined rest
  | _, '\\' :: 'u' :: a :: b :: c :: d :: rest =>
    (charOf? [a, b, c, d]).bind fun x ↦ prepend x (multilineBasic? .body rest)
  | _, '\\' :: 'U' :: a :: b :: c :: d :: e :: f :: g :: h :: rest =>
    (charOf? [a, b, c, d, e, f, g, h]).bind fun x ↦ prepend x (multilineBasic? .body rest)
  | _, '\\' :: c :: rest =>
    if joinsLines (c :: rest) then multilineBasic? .joined rest
    else (ofLetter? c).bind fun x ↦ prepend x (multilineBasic? .body rest)
  | _, c :: rest =>
    if c = '"' then
      match closing? '"' (c :: rest) with
      | some done => some done
      | none =>
        if (['"', '"'] : List Char).isPrefixOf rest then none
        else prepend c (multilineBasic? .body rest)
    else if c = '\n' || (isVisible c && c != '\\') then prepend c (multilineBasic? .body rest)
    else none

/-- A literal string in triple quotes, with unified line ends. -/
def multilineLiteral? : List Char → Option (List Char × List Char)
  | [] => none
  | c :: rest =>
    if c = '\'' then
      match closing? '\'' (c :: rest) with
      | some done => some done
      | none =>
        if (['\'', '\''] : List Char).isPrefixOf rest then none
        else prepend c (multilineLiteral? rest)
    else if c = '\n' || isVisible c then prepend c (multilineLiteral? rest)
    else none

/-- A line end right behind the opening quotes does not count. -/
def skipFirstLineEnd : List Char → List Char
  | '\n' :: rest => rest
  | l => l

/-- Reads a string value. -/
def read? : List Char → Option (List Char × List Char)
  | '"' :: '"' :: '"' :: rest => multilineBasic? .body (skipFirstLineEnd rest)
  | '\'' :: '\'' :: '\'' :: rest => multilineLiteral? (skipFirstLineEnd rest)
  | '"' :: rest => basic? rest
  | '\'' :: rest => literal? rest
  | _ => none

end Text

end Toml

end HazardTrace

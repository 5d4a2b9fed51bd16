import HazardTrace.Json.Basic
import HazardTrace.Json.Escape

/-!
# Writing JSON

`Json.pretty` spreads a value over lines with two blanks per level; empty arrays and objects stay on
their line. `Json.compact` writes no blanks at all.
-/

namespace HazardTrace

namespace Json

namespace Printer

/-- A string literal. -/
def literal (s : String) : List Char :=
  '"' :: (Escape.encode s.toList ++ ['"'])

/-- A line end and the blanks of a level. -/
def newline (level : Nat) : List Char :=
  '\n' :: List.replicate (2 * level) ' '

/-- The text of a value without parts; an empty array or object has none. -/
def atom : Json → List Char
  | .null => ['n', 'u', 'l', 'l']
  | .bool true => ['t', 'r', 'u', 'e']
  | .bool false => ['f', 'a', 'l', 's', 'e']
  | .num lexeme => lexeme.toList
  | .str s => literal s
  | .arr _ => ['[', ']']
  | .obj _ => ['{', '}']
  | .illFormed => ['n', 'u', 'l', 'l']

mutual

/-- A value on several lines, starting on a line of the given level. -/
def spread (level : Nat) : Json → List Char
  | .arr (v :: vs) =>
    '[' :: (newline (level + 1) ++ spread (level + 1) v ++ spreadItems (level + 1) vs ++
      newline level ++ [']'])
  | .obj ((k, v) :: fs) =>
    '{' :: (newline (level + 1) ++ literal k ++ [':', ' '] ++ spread (level + 1) v ++
      spreadFields (level + 1) fs ++ newline level ++ ['}'])
  | v => atom v

/-- The items of an array after the first. -/
def spreadItems (level : Nat) : List Json → List Char
  | [] => []
  | v :: vs => ',' :: (newline level ++ spread level v ++ spreadItems level vs)

/-- The fields of an object after the first. -/
def spreadFields (level : Nat) : List (String × Json) → List Char
  | [] => []
  | (k, v) :: fs =>
    ',' :: (newline level ++ literal k ++ [':', ' '] ++ spread level v ++ spreadFields level fs)

end

mutual

/-- A value without blanks. -/
def dense : Json → List Char
  | .arr (v :: vs) => '[' :: (dense v ++ denseItems vs ++ [']'])
  | .obj ((k, v) :: fs) => '{' :: (literal k ++ [':'] ++ dense v ++ denseFields fs ++ ['}'])
  | v => atom v

/-- The items of an array after the first. -/
def denseItems : List Json → List Char
  | [] => []
  | v :: vs => ',' :: (dense v ++ denseItems vs)

/-- The fields of an object after the first. -/
def denseFields : List (String × Json) → List Char
  | [] => []
  | (k, v) :: fs => ',' :: (literal k ++ [':'] ++ dense v ++ denseFields fs)

end

end Printer

/-- The text of a value on several lines, two blanks per level. -/
def pretty (v : Json) : String :=
  .ofList (Printer.spread 0 v)

/-- The text of a value without blanks. -/
def compact (v : Json) : String :=
  .ofList (Printer.dense v)

end Json

end HazardTrace

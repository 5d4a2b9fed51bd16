/-!
# Escapes in string literals

The characters between the quotes of a string literal. Decoding goes in two steps: first every
escape becomes a character or a 16-bit unit, then pairs of surrogate units are joined. The first
step fails on malformed text, the second on a surrogate that has no partner.
-/

namespace HazardTrace

namespace Json

namespace Escape

/-- A piece of a string literal: a character, or the unit of a hexadecimal escape. -/
inductive Piece where
  | char (c : Char)
  | unit (n : Nat)
deriving DecidableEq, Repr

/-- The character of a one-letter escape. -/
def ofLetter? : Char → Option Char
  | '"' => some '"'
  | '\\' => some '\\'
  | '/' => some '/'
  | 'b' => some '\x08'
  | 'f' => some '\x0c'
  | 'n' => some '\n'
  | 'r' => some '\r'
  | 't' => some '\t'
  | _ => none

/-- The value of a hexadecimal digit. -/
def hexDigit? (c : Char) : Option Nat :=
  if '0' ≤ c ∧ c ≤ '9' then some (c.toNat - '0'.toNat)
  else if 'a' ≤ c ∧ c ≤ 'f' then some (c.toNat - 'a'.toNat + 10)
  else if 'A' ≤ c ∧ c ≤ 'F' then some (c.toNat - 'A'.toNat + 10)
  else none

/-- The value of four hexadecimal digits. -/
def hexUnit? (a b c d : Char) : Option Nat := do
  return (← hexDigit? a) * 4096 + (← hexDigit? b) * 256 + (← hexDigit? c) * 16 + (← hexDigit? d)

/-- The pieces of a literal; a control character or a malformed escape makes it malformed. -/
def pieces? : List Char → Option (List Piece)
  | [] => some []
  | '\\' :: 'u' :: a :: b :: c :: d :: rest => do
    let n ← hexUnit? a b c d
    return .unit n :: (← pieces? rest)
  | '\\' :: e :: rest => do
    let c ← ofLetter? e
    return .char c :: (← pieces? rest)
  | c :: rest =>
    if c = '\\' ∨ c < ' ' then none
    else do return .char c :: (← pieces? rest)

/-- Is the unit the first of a surrogate pair? -/
def isHigh (n : Nat) : Bool :=
  0xD800 ≤ n && n < 0xDC00

/-- Is the unit the second of a surrogate pair? -/
def isLow (n : Nat) : Bool :=
  0xDC00 ≤ n && n < 0xE000

/-- The characters of a literal; an unpaired surrogate denotes none. -/
def join? : List Piece → Option (List Char)
  | [] => some []
  | .char c :: rest => do return c :: (← join? rest)
  | .unit n :: .unit k :: rest =>
    if isHigh n && isLow k then do
      return Char.ofNat (0x10000 + (n - 0xD800) * 0x400 + (k - 0xDC00)) :: (← join? rest)
    else if isHigh n || isLow n then none
    else do return Char.ofNat n :: (← join? (.unit k :: rest))
  | .unit n :: rest =>
    if isHigh n || isLow n then none
    else do return Char.ofNat n :: (← join? rest)

/-- The digit with a value below 16. -/
def hexDigit (n : Nat) : Char :=
  if n < 10 then Char.ofNat ('0'.toNat + n) else Char.ofNat ('a'.toNat + (n - 10))

/-- How a character is written: quotes, backslashes and control characters are escaped. -/
def encodeChar (c : Char) : List Char :=
  if c = '"' then ['\\', '"']
  else if c = '\\' then ['\\', '\\']
  else if c = '\x08' then ['\\', 'b']
  else if c = '\x0c' then ['\\', 'f']
  else if c = '\n' then ['\\', 'n']
  else if c = '\r' then ['\\', 'r']
  else if c = '\t' then ['\\', 't']
  else if c < ' ' then ['\\', 'u', '0', '0', hexDigit (c.toNat / 16), hexDigit (c.toNat % 16)]
  else [c]

/-- The text between the quotes of a literal. -/
def encode (s : List Char) : List Char :=
  s.flatMap encodeChar

end Escape

end Json

end HazardTrace

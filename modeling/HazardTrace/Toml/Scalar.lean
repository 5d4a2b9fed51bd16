import HazardTrace.Toml.Basic

/-!
# Numbers and dates in settings

A value that is not quoted is read as far as its characters go, and then judged as a whole: a truth
value, an integer, a float, or a date, a time or both.
-/

namespace HazardTrace

namespace Toml

namespace Scalar

/-- The characters of an unquoted value. -/
def isPlain (c : Char) : Bool :=
  c.isAlphanum || c == '+' || c == '-' || c == '_' || c == '.' || c == ':'

/-- Splits a value at the first character that satisfies `p`, which is dropped. -/
def splitAt? (p : Char → Bool) (l : List Char) : Option (List Char × List Char) :=
  match l.dropWhile (!p ·) with
  | [] => none
  | _ :: rest => some (l.takeWhile (!p ·), rest)

/-- Is this a sequence of digits, in which an underscore may stand between two digits? -/
def isGrouped (isDigit : Char → Bool) : List Char → Bool
  | [] => false
  | [c] => isDigit c
  | c :: '_' :: rest => isDigit c && isGrouped isDigit rest
  | c :: rest => isDigit c && isGrouped isDigit rest

/-- A decimal number without sign does not start with zero, unless it is zero. -/
def isDecimal (l : List Char) : Bool :=
  isGrouped Char.isDigit l && (l == ['0'] || l.head? != some '0')

/-- The digits of a number in the given base, without underscores. -/
def digitValue (c : Char) : Nat :=
  if c.isDigit then c.toNat - '0'.toNat else c.toLower.toNat - 'a'.toNat + 10

/-- The value of digits in a base; underscores do not count. -/
def valueOf (base : Nat) (l : List Char) : Nat :=
  (l.filter (· != '_')).foldl (fun n c ↦ n * base + digitValue c) 0

/-- Is this a hexadecimal digit? -/
def isHexDigit (c : Char) : Bool :=
  c.isDigit || ('a' ≤ c && c ≤ 'f') || ('A' ≤ c && c ≤ 'F')

/-- Is this an octal digit? -/
def isOctDigit (c : Char) : Bool :=
  '0' ≤ c && c ≤ '7'

/-- Is this a binary digit? -/
def isBinDigit (c : Char) : Bool :=
  c == '0' || c == '1'

/-- Separates a leading sign; the answer tells whether it is a minus. -/
def sign : List Char → Bool × List Char
  | '-' :: rest => (true, rest)
  | '+' :: rest => (false, rest)
  | l => (false, l)

/-- Integers have 64 bits. -/
def fits (n : Int) : Bool :=
  Int64.minValue.toInt ≤ n && n ≤ Int64.maxValue.toInt

/-- An integer that fits. -/
def bounded? (n : Int) : Option Int :=
  if fits n then some n else none

/-- The integer that a value denotes. -/
def integer? (l : List Char) : Option Int :=
  match l with
  | '0' :: 'x' :: rest =>
    if isGrouped isHexDigit rest then bounded? (valueOf 16 rest) else none
  | '0' :: 'o' :: rest => if isGrouped isOctDigit rest then bounded? (valueOf 8 rest) else none
  | '0' :: 'b' :: rest => if isGrouped isBinDigit rest then bounded? (valueOf 2 rest) else none
  | l =>
    let (negative, digits) := sign l
    if isDecimal digits then
      bounded? (if negative then -(valueOf 10 digits : Int) else valueOf 10 digits)
    else none

/-- The exponent of a float. -/
def exponent? (l : List Char) : Option Int :=
  let (negative, digits) := sign l
  if isGrouped Char.isDigit digits then
    some (if negative then -(valueOf 10 digits : Int) else valueOf 10 digits)
  else none

/-- Is `digits` times ten to the `exponent` too large for a float of 64 bits? -/
def overflows (digits : List Char) (exponent : Int) : Bool :=
  let n := valueOf 10 digits
  let size := (toString n).length + exponent
  if n = 0 ∨ size < 300 then false
  else if size > 320 then true
  else
    let limit := Nat.pow 2 1024 - Nat.pow 2 970
    if exponent ≥ 0 then limit ≤ n * Nat.pow 10 exponent.toNat
    else limit * Nat.pow 10 (-exponent).toNat ≤ n

/-- Is this a float with a fraction, an exponent or both? One above the largest float is none. -/
def isFloat (l : List Char) : Bool :=
  let (negative, rest) := sign l
  if rest == ['i', 'n', 'f'] || rest == ['n', 'a', 'n'] then true
  else
    let isE (c : Char) := c == 'e' || c == 'E'
    let (mantissa, power) :=
      match splitAt? isE rest with
      | some (mantissa, power) => (mantissa, exponent? power)
      | none => (rest, some 0)
    match power, splitAt? (· == '.') mantissa with
    | none, _ => false
    | some power, some (whole, fraction) =>
      isDecimal whole && isGrouped Char.isDigit fraction &&
        (negative ||
          !overflows (whole ++ fraction) (power - ((fraction.filter (· != '_')).length : Int)))
    | some power, none =>
      rest.any isE && isDecimal mantissa && (negative || !overflows mantissa power)

/-- The number that two digits denote, if it lies within bounds. -/
def twoDigits? (low high : Nat) (a b : Char) : Option Nat :=
  if a.isDigit && b.isDigit then
    let n := valueOf 10 [a, b]
    if low ≤ n && n ≤ high then some n else none
  else none

/-- The number of days of a month. -/
def daysIn (year month : Nat) : Nat :=
  if month = 2 then
    if (year % 4 = 0 ∧ year % 100 ≠ 0) ∨ year % 400 = 0 then 29 else 28
  else if month ∈ [4, 6, 9, 11] then 30
  else 31

/-- Is this a date? -/
def isDate : List Char → Bool
  | [y1, y2, y3, y4, '-', m1, m2, '-', d1, d2] =>
    [y1, y2, y3, y4].all Char.isDigit &&
      match twoDigits? 1 12 m1 m2, twoDigits? 1 31 d1 d2 with
      | some month, some day => day ≤ daysIn (valueOf 10 [y1, y2, y3, y4]) month
      | _, _ => false
  | _ => false

/-- Is this the offset of a time, or nothing? -/
def isOffset : List Char → Bool
  | [] => true
  | ['Z'] | ['z'] => true
  | [s, h1, h2, ':', m1, m2] =>
    (s == '+' || s == '-') && (twoDigits? 0 23 h1 h2).isSome && (twoDigits? 0 59 m1 m2).isSome
  | _ => false

/-- Is this a time? `offset` tells what may follow the seconds and their fraction. -/
def isTime (offset : List Char → Bool) : List Char → Bool
  | h1 :: h2 :: ':' :: m1 :: m2 :: ':' :: s1 :: s2 :: rest =>
    (twoDigits? 0 23 h1 h2).isSome && (twoDigits? 0 59 m1 m2).isSome &&
      (twoDigits? 0 60 s1 s2).isSome &&
      match rest with
      | '.' :: fraction =>
        !(fraction.takeWhile Char.isDigit).isEmpty && offset (fraction.dropWhile Char.isDigit)
      | rest => offset rest
  | _ => false

/-- Is this a date, a time, or a date and a time joined by a letter? -/
def isDatetime (l : List Char) : Bool :=
  isDate l || isTime List.isEmpty l ||
    match l.drop 10 with
    | c :: rest => (c == 'T' || c == 't') && isDate (l.take 10) && isTime isOffset rest
    | [] => false

/-- The value of an unquoted text. -/
def plain? (l : List Char) : Option Toml :=
  if l = ['t', 'r', 'u', 'e'] then some (.boolean true)
  else if l = ['f', 'a', 'l', 's', 'e'] then some (.boolean false)
  else if isDatetime l then some .datetime
  else if isFloat l then some .float
  else (integer? l).map .integer

/-- Reads an unquoted value. A date and a time may be joined by a blank. -/
def read? (text : List Char) : Option (Toml × List Char) :=
  let word := text.takeWhile isPlain
  let rest := text.dropWhile isPlain
  match rest with
  | ' ' :: c :: more =>
    if isDate word && c.isDigit then
      if isTime isOffset ((c :: more).takeWhile isPlain) then
        some (.datetime, (c :: more).dropWhile isPlain)
      else none
    else (plain? word).map (·, rest)
  | _ => (plain? word).map (·, rest)

end Scalar

end Toml

end HazardTrace

import HazardTrace.Toml.Scalar
import HazardTrace.Toml.Text

/-!
# Reading settings files

A settings file is a sequence of statements: headers, each of which opens a table, and entries,
which belong to the table of the last header. Arrays and tables in braces may be nested, and dotted
keys may have parts, up to a fixed limit.
-/

namespace HazardTrace

namespace Toml

namespace Reader

/-- How deep values may be nested, and how many parts a dotted key may have. -/
def nestingLimit : Nat := 79

/-- A part of the text that has been read, and the rest. -/
abbrev Parser (α : Type) := List Char → Option (α × List Char)

/-- Skips blanks on the current line. -/
def skipBlanks (text : List Char) : List Char :=
  text.dropWhile fun c ↦ c == ' ' || c == '\t'

/-- Skips blanks, line ends and comments. -/
def skipTrivia : Bool → List Char → Option (List Char)
  | _, [] => some []
  | true, '\n' :: rest => skipTrivia false rest
  | true, c :: rest => if Text.isVisible c then skipTrivia true rest else none
  | false, '#' :: rest => skipTrivia true rest
  | false, c :: rest =>
    if c = ' ' ∨ c = '\t' ∨ c = '\n' then skipTrivia false rest else some (c :: rest)

/-- Skips what may follow a statement on its line: blanks and a comment. -/
def endLine? (text : List Char) : Option (List Char) :=
  let atEnd : List Char → Option (List Char)
    | [] => some []
    | '\n' :: rest => some rest
    | _ => none
  match skipBlanks text with
  | '#' :: rest => atEnd (rest.dropWhile Text.isVisible)
  | rest => atEnd rest

/-- Characters of a key without quotes. -/
def isBare (c : Char) : Bool :=
  c.isAlphanum || c == '_' || c == '-'

/-- One part of a key. -/
def simpleKey : Parser String
  | '"' :: rest => (Text.basic? rest).map fun (cs, rest) ↦ (.ofList cs, rest)
  | '\'' :: rest => (Text.literal? rest).map fun (cs, rest) ↦ (.ofList cs, rest)
  | text =>
    let name := text.takeWhile isBare
    if name.isEmpty then none else some (.ofList name, text.dropWhile isBare)

/-- A key of at most `limit` parts. -/
def keyParts : Nat → Parser (List String)
  | 0, _ => none
  | limit + 1, text => do
    let (part, rest) ← simpleKey (skipBlanks text)
    match skipBlanks rest with
    | '.' :: rest => do
      let (parts, rest) ← keyParts limit rest
      return (part :: parts, rest)
    | rest => return ([part], rest)

/-- A key: the names of the tables it passes, and its last part. -/
def key (text : List Char) : Option ((List String × String) × List Char) := do
  let (parts, rest) ← keyParts nestingLimit text
  return ((parts.dropLast, ← parts.getLast?), rest)

/-- An entry: a key and a value. -/
def entry (value : Parser Toml) : Parser Entry := fun text ↦ do
  let ((path, key), rest) ← key text
  match rest with
  | '=' :: rest => do
    let (v, rest) ← value (skipBlanks rest)
    return (⟨path, key, v⟩, rest)
  | _ => none

/-- The items of an array and its closing bracket. The number bounds the items. -/
def items (value : Parser Toml) : Nat → Parser (List Toml)
  | 0, _ => none
  | bound + 1, text => do
    match ← skipTrivia false text with
    | ']' :: rest => return ([], rest)
    | text => do
      let (v, rest) ← value text
      match ← skipTrivia false rest with
      | ',' :: rest => do
        let (vs, rest) ← items value bound rest
        return (v :: vs, rest)
      | ']' :: rest => return ([v], rest)
      | _ => none

/-- The entries of a table in braces, at least one, and its closing brace. The number bounds the
entries. -/
def entries (value : Parser Toml) : Nat → Parser (List Entry)
  | 0, _ => none
  | bound + 1, text => do
    let (e, rest) ← entry value text
    match skipBlanks rest with
    | ',' :: rest => do
      let (es, rest) ← entries value bound rest
      return (e :: es, rest)
    | '}' :: rest => return ([e], rest)
    | _ => none

/-- A value, nested at most `depth` deep. -/
def value : Nat → Parser Toml
  | depth, text =>
    match text with
    | '"' :: _ | '\'' :: _ => (Text.read? text).map fun (cs, rest) ↦ (.string (.ofList cs), rest)
    | '[' :: rest =>
      match depth with
      | 0 => none
      | depth + 1 => (items (value depth) (rest.length + 1) rest).map fun (vs, rest) ↦
        (.array vs, rest)
    | '{' :: rest =>
      match depth, skipBlanks rest with
      | 0, _ => none
      | _, '}' :: rest => some (.table .inline [], rest)
      | depth + 1, rest => do
        let (es, rest) ← entries (value depth) (rest.length + 1) rest
        return (.table .inline (← Fields.insertAll es []), rest)
    | text => Scalar.read? text

/-- A statement of a settings file. -/
inductive Statement where
  | header (repeated : Bool) (path : List String) (key : String)
  | entry (e : Entry)

/-- The statements of a file. The number bounds the lines. -/
def statements : Nat → List Char → Option (List Statement)
  | 0, _ => none
  | bound + 1, text =>
    match skipBlanks text with
    | [] => some []
    | '\n' :: rest => statements bound rest
    | '#' :: rest => do statements bound (← endLine? ('#' :: rest))
    | '[' :: '[' :: rest => do
      match ← key rest with
      | ((path, key), ']' :: ']' :: rest) =>
        return .header true path key :: (← statements bound (← endLine? rest))
      | _ => none
    | '[' :: rest => do
      match ← key rest with
      | ((path, key), ']' :: rest) =>
        return .header false path key :: (← statements bound (← endLine? rest))
      | _ => none
    | text => do
      let (e, rest) ← entry (value nestingLimit) text
      return .entry e :: (← statements bound (← endLine? rest))

/-- The entries before the first header, and the sections. -/
def sections : List Statement → List Entry × List Section
  | [] => ([], [])
  | .entry e :: rest =>
    let (es, ss) := sections rest
    (e :: es, ss)
  | .header repeated path key :: rest =>
    let (es, ss) := sections rest
    ([], ⟨repeated, path, key, es⟩ :: ss)

/-- Leaves out a byte order mark at the start of a file. -/
def skipMark : List Char → List Char
  | '\uFEFF' :: rest => rest
  | text => text

end Reader

open Reader in
/-- The table that a settings file denotes. -/
def parse? (text : String) : Option Fields := do
  let text := Text.unifyLines (skipMark text.toList)
  let (es, ss) := sections (← statements (text.length + 1) text)
  ss.foldlM (fun fields s ↦ fields.addSection s) (← Fields.insertAll es [])

end Toml

end HazardTrace

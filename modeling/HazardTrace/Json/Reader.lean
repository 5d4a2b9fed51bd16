import HazardTrace.Json.Lexer

/-!
# Reading JSON

The value of a JSON text, and the removal of comments from a text that may hold them.
-/

namespace HazardTrace

/-!
## Comments in JSON

Rule files may hold comments: from `//` to the end of the line, and from `/*` to `*/`. Removing them
leaves everything else as it is, and keeps the line ends inside a comment, so that a later message
can still name the line. Inside a string literal nothing starts a comment, and a backslash takes the
next character with it.
-/

namespace Json

/-- What the text before a position has begun and not ended. -/
inductive Within where
  | code
  | literal
  | lineComment
  | blockComment
deriving DecidableEq, Repr

/-- Removes the comments from the rest of a text. -/
def stripFrom : Within → List Char → List Char
  | _, [] => []
  | .code, '"' :: rest => '"' :: stripFrom .literal rest
  | .code, '/' :: '/' :: rest => stripFrom .lineComment rest
  | .code, '/' :: '*' :: rest => stripFrom .blockComment rest
  | .code, c :: rest => c :: stripFrom .code rest
  | .literal, '\\' :: c :: rest => '\\' :: c :: stripFrom .literal rest
  | .literal, '"' :: rest => '"' :: stripFrom .code rest
  | .literal, c :: rest => c :: stripFrom .literal rest
  | .lineComment, '\n' :: rest => '\n' :: stripFrom .code rest
  | .lineComment, _ :: rest => stripFrom .lineComment rest
  | .blockComment, '*' :: '/' :: rest => stripFrom .code rest
  | .blockComment, '\n' :: rest => '\n' :: stripFrom .blockComment rest
  | .blockComment, _ :: rest => stripFrom .blockComment rest

/-- Removes the comments from a text. -/
def stripComments (text : String) : String :=
  .ofList (stripFrom .code text.toList)

end Json

/-!
## Values from tokens

Tokens are put together to a value by a machine that keeps the arrays and objects it is inside of on
a stack, so the depth of a text is not limited. `Json.parse?` accepts one value with blanks around
it and nothing else.
-/

namespace Json

namespace Reader

/-- The fields of an object read so far, latest first; `none` once a key denotes no string. -/
abbrev Fields := Option (List (String × Json))

/-- A place that waits for a value: the next item of an array, after the items before it (latest
first), or the value of a field of an object. -/
inductive Frame where
  | item (before : List Json)
  | field (before : Fields) (key : Option String)
deriving Repr

/-- What may come next. -/
inductive State where
  /-- A value. -/
  | value (outer : List Frame)
  /-- A first item, or the end of the array. -/
  | firstItem (outer : List Frame)
  /-- A comma, or the end of the array. -/
  | afterItem (items : List Json) (outer : List Frame)
  /-- A first key, or the end of the object. -/
  | firstKey (outer : List Frame)
  /-- A key. -/
  | key (fields : Fields) (outer : List Frame)
  /-- The colon after a key. -/
  | colon (fields : Fields) (key : Option String) (outer : List Frame)
  /-- A comma, or the end of the object. -/
  | afterField (fields : Fields) (outer : List Frame)
  /-- Nothing. -/
  | done (v : Json)
deriving Repr

/-- A field joins those before it. -/
def addField (before : Fields) (key : Option String) (v : Json) : Fields := do
  return (← key, v) :: (← before)

/-- The value of an object with the given fields. -/
def closeObject (fields : Fields) : Json :=
  match fields with
  | some fs => .obj fs.reverse
  | none => .illFormed

/-- Puts a finished value where it belongs. -/
def place (v : Json) : List Frame → State
  | [] => .done v
  | .item before :: outer => .afterItem (v :: before) outer
  | .field before key :: outer => .afterField (addField before key v) outer

/-- Reads the first token of a value. -/
def startValue (outer : List Frame) : Token → Option State
  | .scalar v => some (place v outer)
  | .mark '[' => some (.firstItem outer)
  | .mark '{' => some (.firstKey outer)
  | .mark _ => none

/-- Reads a key. A key is a string literal, whether or not it denotes a string. -/
def startKey (fields : Fields) (outer : List Frame) : Token → Option State
  | .scalar (.str s) => some (.colon fields (some s) outer)
  | .scalar .illFormed => some (.colon fields none outer)
  | _ => none

/-- Reads one token. -/
def step (st : State) (t : Token) : Option State :=
  match st with
  | .value outer => startValue outer t
  | .firstItem outer =>
    match t with
    | .mark ']' => some (place (.arr []) outer)
    | t => startValue (.item [] :: outer) t
  | .afterItem items outer =>
    match t with
    | .mark ',' => some (.value (.item items :: outer))
    | .mark ']' => some (place (.arr items.reverse) outer)
    | _ => none
  | .firstKey outer =>
    match t with
    | .mark '}' => some (place (.obj []) outer)
    | t => startKey (some []) outer t
  | .key fields outer => startKey fields outer t
  | .colon fields key outer =>
    match t with
    | .mark ':' => some (.value (.field fields key :: outer))
    | _ => none
  | .afterField fields outer =>
    match t with
    | .mark ',' => some (.key fields outer)
    | .mark '}' => some (place (closeObject fields) outer)
    | _ => none
  | .done _ => none

/-- The value that the tokens make up. -/
def read? (tokens : List Token) : Option Json := do
  match ← tokens.foldlM step (.value []) with
  | .done v => some v
  | _ => none

end Reader

/-- The value of a JSON text. -/
def parse? (text : String) : Option Json :=
  (tokens? text.toList).bind Reader.read?

end Json

end HazardTrace

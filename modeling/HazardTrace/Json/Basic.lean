/-!
# JSON values

The value of a JSON text. A number is kept as it is written, and the fields of an object in their
order, repeated ones included. A text can be well formed and still denote no Unicode string: a
string literal with an unpaired surrogate escape, or an object with such a key. Its value is
`illFormed`, which may stand where a value is not looked at and nowhere else.
-/

namespace HazardTrace

/-- The value of a JSON text. -/
inductive Json where
  | null
  | bool (b : Bool)
  | num (lexeme : String)
  | str (s : String)
  | arr (items : List Json)
  | obj (fields : List (String × Json))
  | illFormed
deriving Inhabited, Repr, BEq

/-- The value of a natural number. -/
def Json.nat (n : Nat) : Json :=
  .num (toString n)

/-- The value of an optional part: `null` when it is missing. -/
def Json.option {α : Type} (encode : α → Json) : Option α → Json
  | none => .null
  | some a => encode a

/-!
## Decoding JSON values

Nothing is converted: a string is a string, and `null` stands for a missing part only where a part
may be null. A record may be given as an object or as the array of its fields in their declared
order. In an object other fields are ignored, and a declared field may not be repeated. In an array
fields may be left out at the end.
-/

namespace Json

/-- A string. -/
def string? : Json → Option String
  | .str s => some s
  | _ => none

/-- A truth value. -/
def bool? : Json → Option Bool
  | .bool b => some b
  | _ => none

/-- A list of values of one kind. -/
def listOf? {α : Type} (decode : Json → Option α) : Json → Option (List α)
  | .arr items => items.mapM decode
  | _ => none

/-- A pair of strings. -/
def stringPair? : Json → Option (String × String)
  | .arr [.str a, .str b] => some (a, b)
  | _ => none

/-- A value that may be null. -/
def nullable? {α : Type} (decode : Json → Option α) : Json → Option (Option α)
  | .null => some none
  | v => (decode v).map some

/-- The value of a field that occurs at most once; `none` if it is repeated. -/
def field? (fields : List (String × Json)) (name : String) : Option (Option Json) :=
  match fields.filter (·.1 == name) with
  | [] => some none
  | [f] => some (some f.2)
  | _ => none

/-- The values of the declared fields of a record, in the declared order. -/
def record? (names : List String) : Json → Option (List (Option Json))
  | .obj fields => names.mapM (field? fields)
  | .arr items =>
    if items.length ≤ names.length then
      some ((List.range names.length).map fun i ↦ items[i]?)
    else none
  | _ => none

/-- A field that must be present. -/
def required? {α : Type} (decode : Json → Option α) : Option Json → Option α
  | some v => decode v
  | none => none

/-- A field with a value for when it is missing. -/
def withDefault? {α : Type} (decode : Json → Option α) (default : α) : Option Json → Option α
  | some v => decode v
  | none => some default

end Json

end HazardTrace

import HazardTrace.Command.Args
import HazardTrace.Log
import HazardTrace.Pattern.Support

/-!
# Log filters

A filter is a list of directives between commas. Of the directives that apply to an event the most
specific decides, and of two that are equally specific the later. Without any directive only errors
pass.
-/

namespace HazardTrace

/-!
## Directives of a log filter

A directive names a level, or the start of a target, or both with an equals sign between them:
`warn`, `input`, `input=warn`. Behind the target it may have brackets, with the name of a span and,
in braces, a field, which may have a value: `input[span{field=value}]=warn`. A directive with a
field but without a span or a value is for events that have the field.

The parts of a directive are found in the text without the blanks around it. They are then cut, at
the same bytes, from the text as it is written. Blanks at the start thus shift every part.
-/

namespace Log

/-- What a directive asks of a field. -/
structure FieldTest where
  name : List Char
  value : Option (List Char) := none
deriving DecidableEq, Repr

/-- A directive: the events it applies to pass up to a level of detail. -/
structure Directive where
  /-- The start of the targets it applies to; the empty one applies to all. -/
  target : List Char := []
  /-- The span it applies to, if it names one. -/
  span : Option (List Char) := none
  field : Option FieldTest := none
  detail : Nat := 5
deriving DecidableEq, Repr

namespace Directive

/-- Why a text is no directive. -/
inductive Fault where
  | malformed
  | level
  | pattern (fault : Pattern.Fault)
deriving DecidableEq, Repr

/-- The wording of a fault. -/
def Fault.message : Fault → String
  | .malformed => "invalid filter directive"
  | .level =>
    "error parsing level filter: expected one of \"off\", \"error\", \"warn\", \"info\", " ++
      "\"debug\", \"trace\", or a number 0-5"
  | .pattern fault => "invalid field filter: " ++ fault.message

/-- The detail of a level, by number or by name. -/
def detail? (text : List Char) : Option Nat :=
  let names := ["off", "error", "warn", "info", "debug", "trace"]
  match Command.count? text with
  | some n => if n < names.length then some n else none
  | none => names.findIdx? (· == String.ofList (text.map Char.toLower))

/-- The bytes of a text from `start` on. -/
def cutFrom (text : List Char) (start : Nat) : Except Fault (List Char) :=
  match Text.splitBytes? start text with
  | some (_, rest) => .ok rest
  | none => .error .malformed

/-- The bytes of a text from `start` on, as many as `part` has. -/
def cut (text : List Char) (start : Nat) (part : List Char) : Except Fault (List Char) := do
  match Text.splitBytes? (Text.byteCount part) (← cutFrom text start) with
  | some (taken, _) => .ok taken
  | none => .error .malformed

/-- The detail that stands from `start` on. Where nothing stands, everything passes. -/
def detailFrom (text : List Char) (start : Nat) : Except Fault Nat := do
  match ← cutFrom text start with
  | [] => .ok 5
  | level =>
    match detail? level with
    | some n => .ok n
    | none => .error .level

/-- Reads a field and its value. A value that is no number is a pattern. What follows a second
equals sign is left out. -/
def fieldTest (text : List Char) : Except Fault FieldTest :=
  match text.splitOn '=' with
  | name :: value :: _ =>
    if Command.isNumber value then .ok ⟨name, some value⟩
    else
      match Pattern.fault? value with
      | some fault => .error (.pattern fault)
      | none => .ok ⟨name, some value⟩
  | _ => if text.isEmpty then .error .malformed else .ok ⟨text, none⟩

/-- Can a target start with this character? -/
def isStart (c : Char) : Bool :=
  Text.isAlphanumeric c || c == '-' || c == ':' || c == '_'

/-- Reads the level behind the brackets, if there is one. `start` is where `rest` starts. -/
def readLevel (text : List Char) (d : Directive) (start : Nat) (rest : List Char) :
    Except Fault Directive := do
  match rest with
  | [] => return d
  | '=' :: _ => return { d with detail := ← detailFrom text (start + 1) }
  | _ => throw .malformed

/-- Reads the field within the braces, and what follows. -/
def readField (text : List Char) (d : Directive) (start : Nat) (rest : List Char) :
    Except Fault Directive := do
  let field := rest.takeWhile (· != '}')
  match rest.drop field.length with
  | '}' :: rest =>
    let d := { d with field := some (← fieldTest (← cut text start field)) }
    match rest with
    | ']' :: rest => readLevel text d (start + Text.byteCount field + 2) rest
    | _ => throw .malformed
  | _ => throw .malformed

/-- Reads the span within the brackets, and what follows. -/
def readSpan (text : List Char) (d : Directive) (start : Nat) (rest : List Char) :
    Except Fault Directive := do
  let name := rest.takeWhile fun c ↦ c != ']' && c != '{'
  let next := start + Text.byteCount name + 1
  match rest.drop name.length with
  | ']' :: rest => readLevel text { d with span := some (← cut text start name) } next rest
  | '{' :: rest =>
    let name ← cut text start name
    readField text { d with span := if name.isEmpty then none else some name } next rest
  | _ => throw .malformed

/-- Reads a directive. -/
def parse (text : List Char) : Except Fault Directive := do
  match Text.trim text with
  | [] => throw .malformed
  | '[' :: rest => readSpan text {} 1 rest
  | c :: cs =>
    if !isStart c then throw .malformed
    else
      let name := (c :: cs).takeWhile fun c ↦ c != '=' && c != '['
      let next := Text.byteCount name + 1
      match (c :: cs).drop name.length with
      | [] =>
        match detail? text with
        | some detail => return { detail }
        | none => return { target := text }
      | '=' :: _ => return { target := ← cut text 0 name, detail := ← detailFrom text next }
      | _ :: rest => readSpan text { target := ← cut text 0 name } next rest

/-- Does a directive apply to an event? Events lie in no span, so one for a span, or for a value
that a field of a span must have, applies to none. -/
def appliesTo (d : Directive) (e : Event) : Bool :=
  d.span.isNone && d.target.isPrefixOf e.component.target.toList &&
    match d.field with
    | none => true
    | some f => f.value.isNone && e.fields.any fun (name, _) ↦ name.toList == f.name

/-- Is the second directive at least as specific as the first? A longer target is more specific,
then a field than none, then the later of two names of fields. -/
def yieldsTo (a b : Directive) : Bool :=
  if a.target.length = b.target.length then
    match a.field, b.field with
    | none, _ => true
    | some _, none => false
    | some f, some g => f.name == g.name || decide (f.name < g.name)
  else a.target.length < b.target.length

end Directive

end Log

/-! ## Filters -/

namespace Log

/-- The directives of a filter. -/
structure Filter where
  directives : List Directive
deriving DecidableEq, Repr

namespace Filter

/-- The directives as they are written. -/
def pieces (text : String) : List (List Char) :=
  (text.toList.splitOn ',').filter (!·.isEmpty)

/-- Reads a filter. What is no directive is left out. -/
def parse (text : String) : Filter :=
  match (pieces text).filterMap fun piece ↦ (Directive.parse piece).toOption with
  | [] => ⟨[{ detail := Level.error.detail }]⟩
  | ds => ⟨ds⟩

/-- What is said about a part of a filter that is no directive. -/
def complaint? (piece : List Char) : Option String :=
  match Directive.parse piece with
  | .ok _ => none
  | .error fault => some ("ignoring `" ++ .ofList piece ++ "`: " ++ fault.message)

/-- What is said about the parts of a filter that are no directives. -/
def complaints (text : String) : List String :=
  (pieces text).filterMap complaint?

/-- The directive that decides about an event. -/
def deciding? (f : Filter) (e : Event) : Option Directive :=
  (f.directives.filter (·.appliesTo e)).foldl (fun best d ↦
    match best with
    | none => some d
    | some b => if b.yieldsTo d then some d else some b) none

/-- Does an event pass? -/
def passes (f : Filter) (e : Event) : Bool :=
  match f.deciding? e with
  | some d => e.level.detail ≤ d.detail
  | none => false

end Filter

end Log

end HazardTrace

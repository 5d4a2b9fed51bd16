/-!
# Command lines

The arguments of the command: one program graph, options with a value, which may follow the name or
an equals sign, and flags. Only the rule files may be given more than once. After a double dash
everything is taken as it stands.
-/

namespace HazardTrace

/-!
## Numbers

Numbers as they are written in the arguments and settings of the command. A count has decimal
digits, which may follow a plus sign, and a value of at most 64 bits. Other numbers may have a sign,
a point and an exponent.
-/

namespace Command

/-- The value of a count. -/
def count? (text : List Char) : Option Nat :=
  let digits :=
    match text with
    | '+' :: rest => rest
    | l => l
  if digits.isEmpty ∨ !digits.all Char.isDigit then none
  else
    let n := digits.foldl (fun n c ↦ n * 10 + (c.toNat - '0'.toNat)) 0
    if n < UInt64.size then some n else none

/-- Digits with a point before, among or behind them. -/
def isMantissa (text : List Char) : Bool :=
  let whole := text.takeWhile Char.isDigit
  let fraction :=
    match text.drop whole.length with
    | '.' :: rest => some rest
    | [] => some []
    | _ => none
  match fraction with
  | some digits => digits.all Char.isDigit && !(whole.isEmpty && digits.isEmpty)
  | none => false

/-- Text behind an optional sign. -/
def unsigned : List Char → List Char
  | '+' :: rest => rest
  | '-' :: rest => rest
  | l => l

/-- Is this a number, or the name of an infinite number or of none? -/
def isNumber (text : List Char) : Bool :=
  let body := unsigned text
  let mantissa := body.takeWhile fun c ↦ c != 'e' && c != 'E'
  ["inf", "infinity", "nan"].contains (String.ofList (body.map Char.toLower)) ||
    (isMantissa mantissa &&
      match body.drop mantissa.length with
      | [] => true
      | _ :: exponent =>
        let digits := unsigned exponent
        !digits.isEmpty && digits.all Char.isDigit)

end Command

/-! ## Arguments -/

namespace Command

/-- What the command is asked to do. -/
structure Args where
  graph : String
  annotations : List String := []
  config : Option String := none
  json : Bool := false
  group : Option String := none
  maxDestinations : Option Nat := none
  firstOnly : Bool := false
  output : Option String := none
  summary : Bool := false
deriving DecidableEq, Repr

namespace Args

/-- Arguments in which the program graph may still be missing. -/
structure Draft where
  graph : Option String := none
  annotations : List String := []
  config : Option String := none
  json : Bool := false
  group : Option String := none
  maxDestinations : Option Nat := none
  firstOnly : Bool := false
  output : Option String := none
  summary : Bool := false
deriving DecidableEq, Repr

/-- The options that take a value. -/
inductive Valued where
  | annotations
  | config
  | group
  | maxDestinations
  | output
deriving DecidableEq, Repr

/-- The options that take none. -/
inductive Flag where
  | json
  | firstOnly
  | summary
deriving DecidableEq, Repr

/-- The option with a given name. -/
def option? (name : String) : Option Valued :=
  if name = "annotations" then some .annotations
  else if name = "config" then some .config
  else if name = "group" then some .group
  else if name = "max-destinations" then some .maxDestinations
  else if name = "output" then some .output
  else none

/-- The flag with a given name. -/
def flag? (name : String) : Option Flag :=
  if name = "json" then some .json
  else if name = "first-only" then some .firstOnly
  else if name = "summary" then some .summary
  else none

/-- A path has at least one character. -/
def path? (s : String) : Option String :=
  if s = "" then none else some s

/-- Sets an option. Only rule files may be repeated. -/
def setOption (d : Draft) (value : String) : Valued → Option Draft
  | .annotations => (path? value).map fun p ↦ { d with annotations := d.annotations ++ [p] }
  | .config =>
    if d.config.isSome then none else (path? value).map fun p ↦ { d with config := some p }
  | .group => if d.group.isSome then none else some { d with group := some value }
  | .maxDestinations =>
    if d.maxDestinations.isSome then none
    else (count? value.toList).map fun n ↦ { d with maxDestinations := some n }
  | .output =>
    if d.output.isSome then none else (path? value).map fun p ↦ { d with output := some p }

/-- Sets a flag. -/
def setFlag (d : Draft) : Flag → Option Draft
  | .json => if d.json then none else some { d with json := true }
  | .firstOnly => if d.firstOnly then none else some { d with firstOnly := true }
  | .summary => if d.summary then none else some { d with summary := true }

/-- Takes an argument that is no option: the program graph. -/
def setGraph (d : Draft) (value : String) : Option Draft :=
  if d.graph.isSome then none else (path? value).map fun p ↦ { d with graph := some p }

/-- Does an argument look like an option? A single dash does not. -/
def isDashed (arg : String) : Bool :=
  arg.toList.head? == some '-' && arg != "-"

/-- The name of a long option, and the value behind an equals sign. -/
def splitLong (arg : String) : String × Option String :=
  let body := arg.toList.drop 2
  let name := body.takeWhile (· != '=')
  (.ofList name,
    match body.drop name.length with
    | [] => none
    | _ :: value => some (.ofList value))

/-- Arguments in the middle of a command line. -/
structure Reading where
  draft : Draft := {}
  /-- The option that waits for its value. -/
  waiting : Option Valued := none
  /-- Has there been a double dash? -/
  literal : Bool := false
deriving DecidableEq, Repr

/-- Reads a long option. -/
def readLong (r : Reading) (arg : String) : Option Reading :=
  match splitLong arg with
  | (name, some value) => do
    return { r with draft := ← setOption r.draft value (← option? name) }
  | (name, none) =>
    match flag? name with
    | some flag => (setFlag r.draft flag).map fun draft ↦ { r with draft }
    | none => (option? name).map fun option ↦ { r with waiting := some option }

/-- Reads one argument. -/
def read (r : Reading) (arg : String) : Option Reading :=
  match r.waiting with
  | some option =>
    if isDashed arg then none
    else (setOption r.draft arg option).map fun draft ↦ { r with draft, waiting := none }
  | none =>
    if r.literal || !isDashed arg then (setGraph r.draft arg).map fun draft ↦ { r with draft }
    else if arg = "--" then some { r with literal := true }
    else if arg.toList.take 2 = ['-', '-'] then readLong r arg
    else none

/-- The arguments that a command line denotes; `none` if it is malformed. -/
def parse? (args : List String) : Option Args := do
  let r ← args.foldlM read {}
  if r.waiting.isSome then none
  let d := r.draft
  return {
    graph := ← d.graph
    annotations := d.annotations
    config := d.config
    json := d.json
    group := d.group
    maxDestinations := d.maxDestinations
    firstOnly := d.firstOnly
    output := d.output
    summary := d.summary }

end Args

end Command

end HazardTrace

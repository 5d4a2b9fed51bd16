import HazardTrace.Files.System
import HazardTrace.Search
import HazardTrace.Toml.Reader

/-!
# Settings

A settings file may name rule files, set the limits of the searches, and choose the layout of the
report. Every part may be left out, and unknown parts are ignored.
-/

namespace HazardTrace

namespace Settings

/-- The name of the settings file of a directory. -/
def fileName : String := "trimreach.toml"

/-- The limits of the searches. -/
structure Limits where
  /-- How many destinations a search collects; zero stands for all. -/
  maxDestinations : Option Nat := none
  firstOnly : Option Bool := none
  excludeInteriorSources : Option Bool := none
deriving DecidableEq, Repr

/-- The layout of the report. -/
structure Layout where
  grouping : Option String := none
  format : Option String := none
deriving DecidableEq, Repr

/-- The limits as search options. -/
def Limits.options (l : Limits) : Search.Options where
  maxDestinations :=
    match l.maxDestinations with
    | some 0 => none
    | some n => some n
    | none => some 10
  returnMultiple := !(l.firstOnly.getD false)
  excludeInteriorSources := l.excludeInteriorSources.getD true

end Settings

/-- The contents of a settings file. -/
structure Settings where
  annotations : Option (List String) := none
  search : Option Settings.Limits := none
  report : Option Settings.Layout := none
deriving DecidableEq, Repr

namespace Settings

/-- The paths of the rule files, starting at `base`. -/
def annotationPaths (s : Settings) (base : String) : List String :=
  (s.annotations.getD []).map (Path.join base)

/-! ### Decoding -/

/-- A string. -/
def string? : Toml → Option String
  | .string s => some s
  | _ => none

/-- A truth value. -/
def bool? : Toml → Option Bool
  | .boolean b => some b
  | _ => none

/-- A number that counts something. -/
def count? : Toml → Option Nat
  | .integer (.ofNat n) => some n
  | _ => none

/-- A list of strings. -/
def strings? : Toml → Option (List String)
  | .array items => items.mapM string?
  | _ => none

/-- The parts of a section, in their declared order. A section is a table, or the array of all its
parts. A date has no part of that name. -/
def parts? (names : List String) : Toml → Option (List (Option Toml))
  | .table _ fields => some (names.map fun name ↦ (fields.find? (·.1 == name)).map (·.2))
  | .array items =>
    if names.length ≤ items.length then some ((items.take names.length).map some) else none
  | .datetime => some (names.map fun _ ↦ none)
  | _ => none

/-- A part that may be missing. -/
def optional? {α : Type} (decode : Toml → Option α) : Option Toml → Option (Option α)
  | none => some none
  | some v => (decode v).map some

/-- The limits of the searches. -/
def Limits.decode? (v : Toml) : Option Limits :=
  match parts? ["max_destinations", "first_only", "exclude_interior_sources"] v with
  | some [maxDestinations, firstOnly, excludeInteriorSources] => do
    return {
      maxDestinations := ← optional? count? maxDestinations
      firstOnly := ← optional? bool? firstOnly
      excludeInteriorSources := ← optional? bool? excludeInteriorSources }
  | _ => none

/-- The layout of the report. -/
def Layout.decode? (v : Toml) : Option Layout :=
  match parts? ["grouping", "format"] v with
  | some [grouping, format] => do
    return { grouping := ← optional? string? grouping, format := ← optional? string? format }
  | _ => none

/-- The settings in a table. -/
def decode? (fields : Toml.Fields) : Option Settings :=
  match parts? ["annotations", "search", "report"] (.table .header fields) with
  | some [annotations, search, report] => do
    return {
      annotations := ← optional? strings? annotations
      search := ← optional? Limits.decode? search
      report := ← optional? Layout.decode? report }
  | _ => none

/-- The settings in a text. -/
def parse? (text : String) : Option Settings :=
  (Toml.parse? text).bind decode?

/-! ### Loading -/

/-- Why a settings file could not be used. -/
inductive Fault where
  | unreadable (path : String) (fault : FileFault)
  | malformed (path : String)
deriving DecidableEq, Repr

/-- The messages of a fault and of what caused it, outermost first. -/
def Fault.chain : Fault → List String
  | .unreadable path fault => ["Failed to read " ++ path, fault.message]
  | .malformed path => ["Invalid " ++ path, "TOML parse error"]

/-- Loads a settings file. -/
def loadFile (fs : FileSystem) (path : String) : Except Fault Settings :=
  match fs.readText path with
  | .error fault => .error (.unreadable path fault)
  | .ok text =>
    match parse? text with
    | some s => .ok s
    | none => .error (.malformed path)

/-- Loads the settings file of a directory, if it has one. -/
def load (fs : FileSystem) (directory : String) : Except Fault (Option Settings) :=
  let path := Path.join directory fileName
  if fs.exists path then (loadFile fs path).map some else .ok none

end Settings

end HazardTrace

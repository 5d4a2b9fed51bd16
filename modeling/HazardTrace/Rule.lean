import HazardTrace.Files.System
import HazardTrace.Json.Basic
import HazardTrace.Json.Reader
import HazardTrace.Marking
import HazardTrace.Note
import HazardTrace.Numbering

/-!
# Rules

A rule attaches a judgment to the methods of one type that its patterns name. Rules come in files:
JSON lists, with comments allowed. A file is read in two steps. First it is decoded to drafts, in
which everything but the type may be missing; then each draft is checked. The first draft that fails
its check fails the file.
-/

namespace HazardTrace

/-! ## Rules and drafts -/

section

open Json (string? listOf? nullable? record? required? withDefault?)

namespace Rule

/-- What a rule does to the methods it matches. -/
inductive Action where
  | warn (text : String)
  | suppress (text : String)
  | safe (text : String)
deriving DecidableEq, Repr

end Rule

/-- A checked rule. -/
structure Rule where
  typeName : String
  patterns : List String
  aspect : Aspect
  category : String
  action : Rule.Action
  /-- The file the rule comes from. -/
  source : String
deriving DecidableEq, Repr

namespace Rule

/-- The note that a rule attaches; a rule that marks methods safe attaches none. -/
def note? (r : Rule) : Option Note :=
  match r.action with
  | .warn text => some (.warn ⟨r.category, text, r.aspect⟩)
  | .suppress text => some (.suppress ⟨r.category, text, r.aspect⟩)
  | .safe _ => none

/-- A rule as it is written. -/
structure Draft where
  typeName : String
  methods : Option (List String) := none
  aspect : Option String := none
  category : Option String := none
  warn : Option String := none
  suppress : Option String := none
  safe : Option String := none
deriving DecidableEq, Repr

/-- What is wrong with a draft. -/
inductive Fault where
  | severalActions
  | noAction
  | noMethods
  | noAspect
  | unknownAspect (name : String)
deriving DecidableEq, Repr

/-- The wording of a fault in the rule for a type. -/
def Fault.message (typeName : String) : Fault → String
  | .severalActions =>
    "annotation for '" ++ typeName ++
      "' specifies more than one of 'Warn', 'Suppress' and 'Safe'"
  | .noAction =>
    "annotation for '" ++ typeName ++
      "' doesn't specify any action property ('Warn', 'Suppress' or 'Safe')"
  | .noMethods => "annotation for type '" ++ typeName ++ "' doesn't specify 'Methods' property"
  | .noAspect => "annotation for type '" ++ typeName ++ "' doesn't specify 'Aspect' property"
  | .unknownAspect name =>
    "annotation for type '" ++ typeName ++ "': " ++
      (Error.argument ("unknown aspect '" ++ name ++ "'")).message

namespace Draft

/-- The fields of a draft, in their declared order. -/
def fieldNames : List String :=
  ["Type", "Methods", "Aspect", "Category", "Warn", "Suppress", "Safe"]

/-- Is a value an array of the wrong length? As an array, a draft has all its fields. -/
def isPartial : Json → Bool
  | .arr items => items.length != fieldNames.length
  | _ => false

/-- Reads a draft. All fields but the type may be missing or null. -/
def decode? (v : Json) : Option Draft :=
  if isPartial v then none
  else
    match record? fieldNames v with
    | some [typeName, methods, aspect, category, warn, suppress, safe] => do
      let text (field : Option Json) := withDefault? (nullable? string?) none field
      return {
        typeName := ← required? string? typeName
        methods := ← withDefault? (nullable? (listOf? string?)) none methods
        aspect := ← text aspect
        category := ← text category
        warn := ← text warn
        suppress := ← text suppress
        safe := ← text safe }
    | _ => none

/-- The actions that a draft names. -/
def actions (d : Draft) : List Action :=
  (d.warn.map Action.warn).toList ++ (d.suppress.map Action.suppress).toList ++
    (d.safe.map Action.safe).toList

/-- Checks a draft: its action, its methods and its aspect, in this order. -/
def check (source : String) (d : Draft) : Except Fault Rule := do
  let action ←
    match d.actions with
    | [action] => .ok action
    | [] => .error .noAction
    | _ => .error .severalActions
  let some patterns := d.methods | .error .noMethods
  let some aspectName := d.aspect | .error .noAspect
  let some aspect := Aspect.ofName? aspectName | .error (.unknownAspect aspectName)
  return {
    typeName := d.typeName
    patterns
    aspect
    category := d.category.getD Note.defaultCategory
    action
    source }

end Draft

/-- Reads the rules of a file. -/
def parse (path text : String) : Except Error (List Rule) :=
  match (Json.parse? (Json.stripComments text)).bind (listOf? Draft.decode?) with
  | none => .error (.config path "invalid JSON: not a list of annotations")
  | some drafts =>
    drafts.mapM fun d ↦
      (d.check path).mapError fun fault ↦ .config path (fault.message d.typeName)

end Rule

end

/-!
## Rule files

Rules are loaded from files and directories. A file that is named is taken whatever its name is; in
a directory the files with the right ending are taken, at any depth. Files are read in the order of
their paths, each of them once.
-/

namespace Rule

/-- The endings of the names of rule files. -/
def fileEndings : List String :=
  [".analysisconfig.json", ".analysisconfig.jsonc"]

/-- Is this the name of a rule file? -/
def isFileName (name : String) : Bool :=
  fileEndings.any fun ending ↦ ending.toList.isSuffixOf name.toList

/-- The rule files that one path stands for. -/
def expand (fs : FileSystem) (path : String) : Except Error (List String) :=
  match fs.stat path with
  | .ok (place, .directory) =>
    match fs.filesBelow isFileName place path with
    | some files => .ok files
    | none => .error (.config path "cannot scan directory: a link in it cannot be followed")
  | .ok (_, .file _) => .ok [path]
  | _ => .error (.config path "annotation path does not exist")

/-- The rule files that some paths stand for, in order. -/
def gather (fs : FileSystem) (paths : List String) : Except Error (List String) := do
  return Path.sorted (← paths.mapM (expand fs)).flatten

/-- Reads the rules of one file, and logs how many there are. -/
def loadFile (fs : FileSystem) (path : String) : Attempt (List Rule) := do
  let text ← ExceptT.mk (pure ((fs.readText path).mapError fun fault ↦ .file path fault.message))
  let rules ← ExceptT.mk (pure (parse path text))
  ExceptT.lift <| Logged.log <| Log.event .debug .rules "loaded annotation configuration"
    [("path", .text path), ("entries", .number rules.length)]
  return rules

/-- Reads all rules that some paths stand for. -/
def loadAll (fs : FileSystem) (paths : List String) : Attempt (List Rule) := do
  let files ← ExceptT.mk (pure (gather fs paths))
  return (← files.mapM (loadFile fs)).flatten

end Rule

/-!
## Applying rules

Rules are applied in order. A rule whose type declares no known method, and a pattern that matches
none, are logged and counted.
-/

section

open Log (event)

namespace Numbering

/-- The known methods of a type, by ascending number. -/
def methodsOf (s : Numbering Method) (typeName : String) : List (Nat × Method) :=
  s.resolved.filter (·.2.declaringType == typeName)

/-- The number of types that declare a known method. -/
def typeCount (s : Numbering Method) : Nat :=
  (ascending (s.resolved.map (·.2.declaringType))).length

end Numbering

namespace Rule

/-- What became of the rules. -/
structure Counts where
  annotated : Nat := 0
  safe : Nat := 0
  duplicates : Nat := 0
  unresolvedTypes : Nat := 0
  unresolvedMethods : Nat := 0
deriving DecidableEq, Repr

/-- A marking to which rules are being applied. -/
structure State where
  marking : Marking
  counts : Counts := {}
deriving DecidableEq, Repr

/-- Applies a rule to one method that it matches. -/
def strike (r : Rule) (st : State) (node : Nat) : Logged State :=
  match r.note? with
  | some a => do
    let (taken, marking) ← st.marking.annotate node a
    pure {
      marking
      counts :=
        if taken then { st.counts with annotated := st.counts.annotated + 1 }
        else { st.counts with duplicates := st.counts.duplicates + 1 } }
  | none =>
    pure {
      marking := st.marking.markSafe node
      counts := { st.counts with safe := st.counts.safe + 1 } }

/-- Applies one pattern of a rule to the methods of its type. -/
def applyPattern (r : Rule) (methods : List (Nat × Method)) (st : State) (pattern : String) :
    Logged State :=
  match methods.filter (·.2.matchesPattern pattern) with
  | [] => do
    Logged.log <| event .warn .rules "annotation names a method which can't be resolved"
      [("type_name", .text r.typeName), ("method", .text pattern), ("file", .text r.source)]
    pure { st with counts.unresolvedMethods := st.counts.unresolvedMethods + 1 }
  | matching => (matching.map (·.1)).foldlM r.strike st

/-- Applies a rule. -/
def apply (s : Numbering Method) (st : State) (r : Rule) : Logged State :=
  match s.methodsOf r.typeName with
  | [] => do
    Logged.log <|
      event .warn .rules "could not resolve type name in annotation configuration, ignoring entry"
        [("type_name", .text r.typeName), ("file", .text r.source)]
    pure { st with counts.unresolvedTypes := st.counts.unresolvedTypes + 1 }
  | methods => r.patterns.foldlM (r.applyPattern methods) st

/-- Applies all rules to a marking, in order. -/
def applyAll (rules : List Rule) (s : Numbering Method) (m : Marking) : Logged State := do
  let st ← rules.foldlM (apply s) { marking := m }
  Logged.log <| event .info .rules "applied annotation configuration"
    [("entries", .number rules.length), ("annotated", .number st.counts.annotated),
      ("safe", .number st.counts.safe), ("unresolved_types", .number st.counts.unresolvedTypes),
      ("unresolved_methods", .number st.counts.unresolvedMethods)]
  pure st

end Rule

end

end HazardTrace

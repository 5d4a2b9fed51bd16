import HazardTrace.Analysis
import HazardTrace.Command.Args
import HazardTrace.Command.Filter
import HazardTrace.Program
import HazardTrace.Report.Writer
import HazardTrace.Settings

/-!
# Running the command

The command merges its arguments with a settings file, loads a program graph, runs the analysis and
writes the report. All that it does to the outside is in its outcome.
-/

namespace HazardTrace

namespace Command

/-- What a run of the command leaves behind. -/
structure Outcome where
  exitCode : Nat
  stdout : String := ""
  stderr : String := ""
  files : FileSystem

/-- A command that cannot go on, with the messages of what stopped it, outermost first. -/
abbrev Failure := List String

/-- The choices of a run, after the settings file has been merged under the arguments. -/
structure Plan where
  annotations : List String
  limits : Settings.Limits
  grouping : Grouping
  json : Bool
deriving DecidableEq, Repr

/-- An event with nothing but a text. -/
def detail (level : Log.Level) (text : String) : Log.Event :=
  ⟨level, .command, [("detail", .text text)], .caller⟩

/-- The directory of the program graph, where settings are looked for. -/
def base (args : Args) : String :=
  match Path.parent? args.graph with
  | some p => if p = "" then "." else p
  | none => "."

/-- The settings of a run. A file that was asked for must be usable; the one beside the program
graph is left aside with a warning if it is not. -/
def settings (fs : FileSystem) (args : Args) : Logged (Except Failure (Option Settings)) :=
  match args.config with
  | some path => pure (((Settings.loadFile fs path).map some).mapError Settings.Fault.chain)
  | none =>
    match Settings.load fs (base args) with
    | .ok s => pure (.ok s)
    | .error fault =>
      ⟨.ok none, [detail .warn ("config load failed: " ++ ": ".intercalate fault.chain)]⟩

/-- Arguments go before settings; rule files of both are taken. -/
def plan (args : Args) (settings : Option Settings) : Except Failure Plan := do
  let s := settings.getD {}
  let layout := s.report.getD {}
  let limits := s.search.getD {}
  let grouping ←
    match args.group <|> layout.grouping with
    | some name => (Grouping.parse name).mapError Error.chain
    | none => .ok .callee
  return {
    annotations := s.annotationPaths (base args) ++ args.annotations
    limits := { limits with
      maxDestinations := args.maxDestinations <|> limits.maxDestinations
      firstOnly := if args.firstOnly then some true else limits.firstOnly }
    grouping
    json := args.json || layout.format == some "json" }

/-- Runs the analysis and collects the bytes of the report. -/
def analyze (fs : FileSystem) (p : Program) (plan : Plan) :
    Logged (ByteArray × Except Error Analysis.Report) :=
  let options := plan.limits.options
  if plan.json then do
    let (r, result) ← Analysis.runFrom fs p plan.annotations [] options plan.grouping false
      ({ out := {} } : JsonReport Storage)
    return (r.out.bytes, result)
  else do
    let (r, result) ← Analysis.runFrom fs p plan.annotations [] options plan.grouping false
      ({ out := {} } : TextReport Storage)
    return (r.out.bytes, result)

/-- Lines with their ends. -/
def unlines (ls : List String) : String :=
  "".intercalate (ls.map (· ++ "\n"))

/-- The outcome of a run that failed. -/
def fail (files : FileSystem) (messages : Failure) : Logged Outcome :=
  let text := ": ".intercalate messages
  ⟨{ exitCode := 2, stderr := "[ERROR] " ++ text ++ "\n", files }, [detail .error text]⟩

/-- The text of stored bytes. -/
def textOf (bytes : ByteArray) : String :=
  (String.fromUTF8? bytes).getD ""

/-- The outcome of a run with a report. The summary goes to the standard output only if the report
does not, and as text never. -/
def succeed (args : Args) (plan : Plan) (time : String) (files : FileSystem) (bytes : ByteArray)
    (report : Analysis.Report) : Outcome :=
  let summary :=
    if !args.summary then ""
    else if plan.json then (report.toJson time).pretty ++ "\n"
    else unlines report.lines
  let toStdout := plan.json && args.output.isSome
  { exitCode := if report.hasFindings then 1 else 0
    stdout :=
      (if args.output.isSome then "" else textOf bytes) ++ (if toStdout then summary else "")
    stderr := if toStdout then "" else summary
    files }

/-- Makes the output file, if there is one. -/
def openOutput (fs : FileSystem) (args : Args) :
    Except Failure (Option Place × FileSystem) :=
  match args.output with
  | none => .ok (none, fs)
  | some path =>
    match fs.create path with
    | .ok (place, fs) => .ok (some place, fs)
    | .error fault => .error ["Failed to create " ++ path, fault.message]

/-- Puts the bytes of the report into the output file, if there is one. -/
def store (fs : FileSystem) (output : Option Place) (bytes : ByteArray) : FileSystem :=
  match output with
  | none => fs
  | some place => fs.write place bytes

/-- Runs the command. -/
def run (fs : FileSystem) (time : String) (args : Args) : Logged Outcome := do
  match ← settings fs args with
  | .error failure => fail fs failure
  | .ok settings =>
    match plan args settings with
    | .error failure => fail fs failure
    | .ok plan =>
      match ← (Program.load fs args.graph).run with
      | .error e => fail fs (("Failed to load program graph: " ++ args.graph) :: e.chain)
      | .ok program =>
        match openOutput fs args with
        | .error failure => fail fs failure
        | .ok (output, fs) =>
          let (bytes, result) ← analyze fs program plan
          let files := store fs output bytes
          match result with
          | .error e => fail files ("Analysis failed" :: e.chain)
          | .ok report => do
            Logged.log <| detail .info <| toString report.collection.chains ++ " chains from " ++
              toString report.searches ++ " searches"
            return succeed args plan time files bytes report

end Command

end HazardTrace

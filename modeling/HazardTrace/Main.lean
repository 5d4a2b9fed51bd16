import HazardTrace.Command.Run
import HazardTrace.Json.Printer
import Std.Time.Format

/-!
# The command on a real system

The outer layer of the command. It copies the files that a run can see into a `FileSystem`, runs the
command on that value and carries its outcome back: the report, the messages, the log and the output
file. It decides nothing that the outcome does not say.
-/

namespace HazardTrace

namespace Command

/-! ### The log -/

/-- How the thread of an event is named in a log line. -/
def threadName : Log.Thread → String
  | .caller => "ThreadId(1)"
  | .searcher => "ThreadId(2)"
  | .collector => "ThreadId(3)"

/-- An event as a line of the log. -/
def logLine (time : String) (e : Log.Event) : String :=
  let value : Log.Value → Json
    | .number n => .nat n
    | .text s => .str s
  (Json.obj [("timestamp", .str time), ("level", .str e.level.name),
    ("fields", .obj (e.fields.map fun (name, v) ↦ (name, value v))),
    ("target", .str e.component.target), ("threadId", .str (threadName e.thread))]).compact

/-- The time of day, in the zone of Greenwich. -/
def now : IO String := do
  let t ← Std.Time.Timestamp.now
  return (Std.Time.DateTime.ofTimestamp t .UTC).format "uuuu-MM-dd'T'HH:mm:ss.SSSSSSSSS'Z'"

/-! ### Copying files -/

/-- The place that an absolute path without links names. -/
def placeOf (path : String) : Place :=
  (Path.segments path).filter (· != "")

/-- The value of an action, or `none` if it fails. -/
def orNone {α : Type} (act : IO α) : IO (Option α) :=
  try return some (← act) catch _ => return none

/-- The real name of a path, if it leads anywhere. -/
def real? (path : String) : IO (Option String) :=
  orNone do return (← IO.FS.realPath path).toString

/-- A name that nothing has. The target of a link cannot be read, so a link that leads nowhere is
taken to lead to it. -/
def nowhere : String := "\x00"

/-- A link that cannot be followed, by what was said when it was tried. -/
def deadLink (name : String) : IO.Error → FileEntry
  | .invalidArgument .. => .link name
  | _ => .link nowhere

/-- What has been copied so far. -/
structure Copy where
  files : FileSystem
  /-- The directories that have been copied with all that is below them. -/
  whole : List Place := []

/-- Copies what `path` leads to. Its last name lies at `place`; a link leads to a place of its own,
which is copied too. With `deep`, a directory is copied with all that is below it. -/
partial def copyEntry (deep : Bool) (c : Copy) (place : Place) (path : String) : IO Copy := do
  let put (entry : FileEntry) : Copy := { c with files := c.files.add place entry }
  match ← real? path with
  | none =>
    match ← orNone do ((← IO.currentDir) / path).symlinkMetadata with
    | none => return c
    | some _ =>
      try
        discard ((← IO.currentDir) / path).metadata
        return c
      catch e => return put (deadLink (place.getLast?.getD "") e)
  | some name =>
    if placeOf name ≠ place then copyEntry deep (put (.link name)) (placeOf name) name
    else if !(← ((← IO.currentDir) / name).isDir) then
      return put (.file ((← orNone (IO.FS.readBinFile name)).getD .empty))
    else if !deep || c.whole.contains place then return put .directory
    else
      let entries ← orNone do ((← IO.currentDir) / name).readDir
      (entries.getD #[]).foldlM (fun c e ↦
        copyEntry deep c (place ++ [e.fileName]) (Path.join name e.fileName))
        { put .directory with whole := place :: c.whole }

/-- Copies what lies along a path. -/
def copyPath (c : Copy) (path : String) : IO Copy := do
  let segs := Path.segments path
  segs.zipIdx.foldlM (fun c (name, i) ↦ do
    let above := if i = 0 then "." else "/".intercalate (segs.take i) ++ "/"
    match ← real? above with
    | some dir =>
      if name = "" ∨ name = "." ∨ name = ".." then return c
      copyEntry false c (placeOf dir ++ [name]) (Path.join above name)
    | none => return c) c

/-- Copies what lies along a path and all that is below it. -/
def copyTree (c : Copy) (path : String) : IO Copy := do
  let c ← copyPath c path
  match ← real? path with
  | some name => copyEntry true c (placeOf name) name
  | none => return c

/-- Copies all that a run with the given arguments can see. -/
def snapshot (args : Args) : IO FileSystem := do
  let here := ((← real? ".").map placeOf).getD []
  let start : Copy := { files := ({ here } : FileSystem).add here .directory }
  let plain := [args.graph, Path.join (base args) Settings.fileName] ++ args.config.toList ++
    args.output.toList
  let c ← plain.foldlM copyPath start
  let c ← args.annotations.foldlM copyTree c
  match (settings c.files args).value with
  | .ok (some s) => return (← (s.annotationPaths (base args)).foldlM copyTree c).files
  | _ => return c.files

/-! ### Carrying out the outcome -/

/-- Writes the output file, if the run made one. -/
def writeOutput (args : Args) (before after : FileSystem) : IO Unit := do
  match args.output with
  | none => return
  | some path =>
    match after.stat path, before.stat path with
    | .ok (_, .file new), .ok (_, .file old) =>
      unless new == old do IO.FS.writeBinFile path new
    | .ok (_, .file new), _ => IO.FS.writeBinFile path new
    | _, _ => return

/-- Makes the output file. If that fails, the answer is a link with which it fails in the same
way. -/
def tryOutput (path : String) : IO (Option FileEntry) := do
  try
    discard (IO.FS.Handle.mk path .append)
    return none
  catch
    | .inappropriateType .. => return some (.link ".")
    | _ => return some (.link "")

/-- If a run makes its output file at the end of a link that leads nowhere, the file is made now, to
see whether it can be. The answer is the files with what the link has turned out to be. -/
def settleOutput (args : Args) (before : FileSystem) (after : Unit → FileSystem) :
    IO FileSystem := do
  match args.output with
  | none => return before
  | some path =>
    match before.locate true path with
    | .ok (.missing place) =>
      if place.getLast? != some nowhere || !(after ()).exists path then return before
      match ← tryOutput path with
      | none => return before
      | some found =>
        return { before with entries := before.entries.map fun (place, entry) ↦
          match entry with
          | .link target => (place, if target = nowhere then found else entry)
          | _ => (place, entry) }
    | _ => return before

/-- Runs the command on the files of the system. -/
def runHere (args : Args) : IO Nat := do
  let filter := (← IO.getEnv "RUST_LOG").getD ""
  IO.eprint (unlines (Log.Filter.complaints filter))
  let fs ← snapshot args
  let time ← now
  let fs ← settleOutput args fs fun _ ↦ (run fs time args).value.files
  let out := run fs time args
  for e in out.events.filter (Log.Filter.parse filter).passes do
    IO.eprintln (logLine time e)
  writeOutput args fs out.value.files
  IO.print out.value.stdout
  IO.eprint out.value.stderr
  return out.value.exitCode

end Command

end HazardTrace

def main (args : List String) : IO UInt32 := do
  match HazardTrace.Command.Args.parse? args with
  | some args => return (← HazardTrace.Command.runHere args).toUInt32
  | none =>
    IO.eprintln "Usage: trimreach [OPTIONS] <GRAPH>"
    return 2

import HazardTrace.Files.Path

/-!
# File systems

The files that a run can see, as a value. A place is the list of names that lead to it from the
root. Paths are followed as a system does it: through links, with `..` meaning the directory above
the one reached, and with bounds on the number of links, on the length of a name and on the length
of a path.
-/

namespace HazardTrace

/-- What a place holds. -/
inductive FileEntry where
  | file (bytes : ByteArray)
  | directory
  | link (target : String)
  /-- Reads as empty and forgets what is written to it. -/
  | device

/-- Why a path could not be used. -/
inductive FileFault where
  | missing
  | notDirectory
  | isDirectory
  | tooManyLinks
  | tooLong
  | notName
  | notText
deriving DecidableEq, Repr

/-- The wording of a fault. -/
def FileFault.message : FileFault → String
  | .missing => "No such file or directory (os error 2)"
  | .notDirectory => "Not a directory (os error 20)"
  | .isDirectory => "Is a directory (os error 21)"
  | .tooManyLinks => "Too many levels of symbolic links (os error 40)"
  | .tooLong => "File name too long (os error 36)"
  | .notName => "file name contained an unexpected NUL byte"
  | .notText => "stream did not contain valid UTF-8"

/-- A place, by the names that lead to it. -/
abbrev Place := List String

/-- Files, directories and links, with the directory that relative paths start from. -/
structure FileSystem where
  entries : List (Place × FileEntry) := []
  here : Place := []

namespace FileSystem

/-- How many links are followed on the way along one path. -/
def linkLimit : Nat := 40

/-- The length of the longest name, in bytes. -/
def nameLimit : Nat := 255

/-- The length of the longest path, in bytes. -/
def pathLimit : Nat := 4095

/-- What a place holds. The root is a directory. -/
def entry? (fs : FileSystem) (place : Place) : Option FileEntry :=
  if place.isEmpty then some .directory
  else (fs.entries.find? (·.1 == place)).map (·.2)

/-- Where a path leads. -/
inductive Landing where
  | found (place : Place) (entry : FileEntry)
  /-- Only the last name is missing: the place where it could be made. -/
  | missing (place : Place)

/-- Follows segments from a place. A segment that stands for nothing asks for a directory. With
`making`, the last name is to be made if nothing has it, so that nothing may stand behind it. -/
def follow (fs : FileSystem) (making : Bool) (links : Nat) (place : Place) (path : List String) :
    Except FileFault Landing :=
  match fs.entry? place with
  | none => .error .missing
  | some here =>
    match path with
    | [] => .ok (.found place here)
    | step :: rest =>
      match here with
      | .directory =>
        if step = "" ∨ step = "." then fs.follow making links place rest
        else if step = ".." then fs.follow making links place.dropLast rest
        else if making ∧ !rest.isEmpty ∧ rest.all (· == "") then .error .isDirectory
        else if nameLimit < step.utf8ByteSize then .error .tooLong
        else
          match fs.entry? (place ++ [step]) with
          | none => if rest.isEmpty then .ok (.missing (place ++ [step])) else .error .missing
          | some (.link target) =>
            match links with
            | 0 => .error .tooManyLinks
            | links + 1 =>
              if target = "" then .error .missing
              else
                let start := if Path.isAbsolute target then [] else place
                fs.follow making links start (Path.segments target ++ rest)
          | some _ => fs.follow making links (place ++ [step]) rest
      | _ => .error .notDirectory
termination_by (links, path.length)

/-- Follows a path. -/
def locate (fs : FileSystem) (making : Bool) (path : String) : Except FileFault Landing :=
  if path.toList.contains '\x00' then .error .notName
  else if pathLimit < path.utf8ByteSize then .error .tooLong
  else if path = "" then .error .missing
  else
    let start := if Path.isAbsolute path then [] else fs.here
    fs.follow making linkLimit start (Path.segments path)

/-- What a path leads to. -/
def stat (fs : FileSystem) (path : String) : Except FileFault (Place × FileEntry) :=
  match fs.locate false path with
  | .ok (.found place entry) => .ok (place, entry)
  | .ok (.missing _) => .error .missing
  | .error fault => .error fault

/-- Does a path lead to anything? -/
def «exists» (fs : FileSystem) (path : String) : Bool :=
  (fs.stat path).isOk

/-- The text of a file. -/
def readText (fs : FileSystem) (path : String) : Except FileFault String :=
  match fs.stat path with
  | .ok (_, .file bytes) =>
    match String.fromUTF8? bytes with
    | some text => .ok text
    | none => .error .notText
  | .ok (_, .device) => .ok ""
  | .ok _ => .error .isDirectory
  | .error fault => .error fault

/-- Sets what a place holds. -/
def set (fs : FileSystem) (place : Place) (entry : FileEntry) : FileSystem :=
  { fs with entries := (place, entry) :: fs.entries.filter (·.1 != place) }

/-- Adds an entry, with the directories above it. -/
def add (fs : FileSystem) (place : Place) (entry : FileEntry) : FileSystem :=
  let above := (List.range place.length).map (place.take ·)
  let fs := above.foldl (fun fs dir ↦
    match fs.entry? dir with
    | some _ => fs
    | none => fs.set dir .directory) fs
  fs.set place entry

/-- Adds an entry at a path below `here`. Directories on the way are made where they are missing,
and links on the way are followed. -/
def install (fs : FileSystem) (path : String) (entry : FileEntry) : FileSystem :=
  let names := (Path.segments path).filter (· != "")
  let (fs, place) := names.dropLast.foldl (fun (fs, place) name ↦
    match fs.follow false linkLimit place [name] with
    | .ok (.found inner _) => (fs, inner)
    | .ok (.missing inner) => (fs.set inner .directory, inner)
    | .error _ => (fs, place ++ [name])) (fs, fs.here)
  fs.set (place ++ names.getLast?.toList) entry

/-- Makes a file, or empties it if it exists. -/
def create (fs : FileSystem) (path : String) : Except FileFault (Place × FileSystem) :=
  match fs.locate true path with
  | .ok (.found place (.file _)) => .ok (place, fs.set place (.file .empty))
  | .ok (.found place .device) => .ok (place, fs)
  | .ok (.found _ _) => .error .isDirectory
  | .ok (.missing place) => .ok (place, fs.set place (.file .empty))
  | .error fault => .error fault

/-- Writes to a place that has been made. -/
def write (fs : FileSystem) (place : Place) (bytes : ByteArray) : FileSystem :=
  match fs.entry? place with
  | some .device => fs
  | _ => fs.set place (.file bytes)

/-- The names in a directory, with what they hold. -/
def list (fs : FileSystem) (place : Place) : List (String × FileEntry) :=
  fs.entries.filterMap fun (p, entry) ↦
    match p.getLast? with
    | some name => if p.dropLast == place then some (name, entry) else none
    | none => none

/-- All files below a directory that satisfy `keep`, by the path on which they were met. Links are
followed. The answer is `none` if a path that is met leads nowhere, or back to a directory that is
being scanned. The number bounds the depth. -/
def scan (fs : FileSystem) (keep : String → Bool) : Nat → List Place → Place → String →
    Option (List String)
  | 0, _, _, _ => none
  | depth + 1, above, place, path => do
    let above := place :: above
    let found ← (fs.list place).mapM fun (name, entry) ↦
      let inner := Path.join path name
      let kept := if keep name then [inner] else []
      match entry with
      | .file _ => some kept
      | _ =>
        match fs.stat inner with
        | .ok (target, .directory) =>
          if above.contains target then none else fs.scan keep depth above target inner
        | .ok (_, .file _) => some kept
        | .ok _ => some []
        | .error _ => none
    return found.flatten

/-- All files below a directory that satisfy `keep`. No directory is scanned within itself, so the
depth is at most the number of directories. -/
def filesBelow (fs : FileSystem) (keep : String → Bool) (place : Place) (path : String) :
    Option (List String) :=
  fs.scan keep (fs.entries.length + 2) [] place path

end FileSystem

end HazardTrace

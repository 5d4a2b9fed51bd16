/-!
# TOML values

A settings file is a table of named values. It is put together section by section. A table that a
header opens may be opened only once; a table that is only passed on the way to another may be
opened later; a table that a dotted key makes may be extended by dotted keys alone, and its inner
tables by headers.
-/

namespace HazardTrace

namespace Toml

/-- How a table came to be. -/
inductive Origin where
  /-- Written in braces; nothing can be added to it. -/
  | inline
  /-- Opened by a header. -/
  | header
  /-- Passed by a header on the way to another table. -/
  | passed
  /-- Passed by a dotted key. -/
  | dotted
deriving DecidableEq, Repr

end Toml

/-- A value of a settings file. Only what settings can hold is kept; of a float or a date it matters
that it is one. -/
inductive Toml where
  | string (s : String)
  | integer (n : Int)
  | float
  | boolean (b : Bool)
  | datetime
  | array (items : List Toml)
  | table (origin : Toml.Origin) (fields : List (String × Toml))
  /-- The tables of one name that double headers opened, latest first. -/
  | tables (items : List Toml)
deriving Inhabited, Repr

namespace Toml

/-- The fields of a table, in order of appearance. -/
abbrev Fields := List (String × Toml)

/-- Changes the value of a key, or gives it one; `f` may refuse. -/
def Fields.alter (key : String) (f : Option Toml → Option Toml) : Fields → Option Fields
  | [] => (f none).map fun v ↦ [(key, v)]
  | (k, v) :: rest =>
    if k = key then (f (some v)).map fun v' ↦ (k, v') :: rest
    else (alter key f rest).map ((k, v) :: ·)

/-- Gives a value to a key that has none. -/
def Fields.insert (key : String) (v : Toml) (fields : Fields) : Option Fields :=
  fields.alter key fun
    | none => some v
    | some _ => none

/-- Gives a value to a dotted key. The tables on the way are made by dotted keys, the innermost one
in any case; a table on the way that a header merely passed may be crossed, and of tables under one
name the latest is meant. -/
def Fields.insertDotted (key : String) (v : Toml) : List String → Fields → Option Fields
  | [], fields => fields.insert key v
  | step :: path, fields =>
    fields.alter step fun
      | none => (Fields.insertDotted key v path []).map (.table .dotted)
      | some (.table .dotted inner) =>
        (Fields.insertDotted key v path inner).map (.table .dotted)
      | some (.table .passed inner) =>
        if path.isEmpty then none
        else (Fields.insertDotted key v path inner).map (.table .passed)
      | some (.tables (.table origin inner :: earlier)) =>
        if path.isEmpty then none
        else (Fields.insertDotted key v path inner).map fun inner ↦
          .tables (.table origin inner :: earlier)
      | some _ => none

/-- A key with the tables that a dotted key passes, and its value. -/
structure Entry where
  path : List String
  key : String
  value : Toml
deriving Repr

/-- Adds entries to a table, in order. -/
def Fields.insertAll (entries : List Entry) (fields : Fields) : Option Fields :=
  entries.foldlM (fun fields e ↦ fields.insertDotted e.key e.value e.path) fields

/-- Crosses the tables that a header names before its last key, and changes the one reached. -/
def Fields.cross (f : Fields → Option Fields) : List String → Fields → Option Fields
  | [], fields => f fields
  | step :: path, fields =>
    fields.alter step fun
      | none => (Fields.cross f path []).map (.table .passed)
      | some (.table .inline _) => none
      | some (.table origin inner) => (Fields.cross f path inner).map (.table origin)
      | some (.tables (.table origin inner :: earlier)) =>
        (Fields.cross f path inner).map fun inner ↦ .tables (.table origin inner :: earlier)
      | some _ => none

/-- A part of a settings file: a header and the entries below it. -/
structure Section where
  /-- Is it one of several tables of its name? -/
  repeated : Bool
  path : List String
  key : String
  entries : List Entry
deriving Repr

/-- Adds a section to the table of the whole file. -/
def Fields.addSection (s : Section) (fields : Fields) : Option Fields :=
  let opened (old : Option Toml) : Option Toml :=
    match s.repeated, old with
    | false, none => (Fields.insertAll s.entries []).map (.table .header)
    | false, some (.table .passed inner) => (Fields.insertAll s.entries inner).map (.table .header)
    | true, none => (Fields.insertAll s.entries []).map fun fs ↦ .tables [.table .header fs]
    | true, some (.tables earlier) =>
      (Fields.insertAll s.entries []).map fun fs ↦ .tables (.table .header fs :: earlier)
    | _, _ => none
  Fields.cross (fun parent ↦ parent.alter s.key opened) s.path fields

end Toml

end HazardTrace

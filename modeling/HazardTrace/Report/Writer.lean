import HazardTrace.Json.Printer
import HazardTrace.Report.Delivery

/-!
# Written reports

Receivers that write what they get, as text or as one JSON array, and the writers that take the
bytes.
-/

namespace HazardTrace

/-!
## Writers

Where the bytes of a report go. A writer that cannot take all the bytes of a write keeps a first
part of them and fails. The two laws say that a writer never alters what it has accepted and that
only a write accepted in full succeeds.
-/

/-- A destination of bytes. -/
class Writer (ω : Type) where
  /-- All bytes taken so far. -/
  accepted : ω → ByteArray
  write : ω → ByteArray → ω × Except String Unit
  flush : ω → ω × Except String Unit
  accepted_write : ∀ w bytes, ∃ k, accepted (write w bytes).1 = accepted w ++ bytes.extract 0 k ∧
    ((write w bytes).2 = .ok () → bytes.size ≤ k)
  accepted_flush : ∀ w, accepted (flush w).1 = accepted w

/-- Storage that may be bounded: it keeps the bytes that fit and fails on the first that does
not. -/
structure Storage where
  bytes : ByteArray := ByteArray.empty
  /-- How many bytes it takes in all; `none` is unbounded. -/
  capacity : Option Nat := none
  /-- Do flushes fail? -/
  failsFlush : Bool := false

namespace Storage

/-- How many of `n` further bytes fit. -/
def room (w : Storage) (n : Nat) : Nat :=
  match w.capacity with
  | none => n
  | some c => min n (c - w.bytes.size)

/-- Keeps the bytes that fit. -/
def write (w : Storage) (bytes : ByteArray) : Storage × Except String Unit :=
  let k := w.room bytes.size
  ({ w with bytes := w.bytes ++ bytes.extract 0 k },
    if bytes.size ≤ k then .ok () else .error "disk full")

instance : Writer Storage where
  accepted := bytes
  write := write
  flush w := (w, if w.failsFlush then .error "flush failed" else .ok ())
  accepted_write w bytes := by
    refine ⟨w.room bytes.size, rfl, ?_⟩
    unfold write
    dsimp only
    split <;> simp_all
  accepted_flush _ := rfl

/-- The stored bytes as text. When the last character was cut, a replacement character stands for
what is left of it. -/
def text (w : Storage) : String :=
  let cut (k : Nat) := String.fromUTF8? (w.bytes.extract 0 (w.bytes.size - k))
  match cut 0 with
  | some s => s
  | none => (((cut 1 <|> cut 2) <|> cut 3).getD "") ++ "\uFFFD"

end Storage

namespace Writer

variable {ω : Type} [Writer ω]

/-- Writes a text. -/
def writeText (w : ω) (text : String) : ω × Except String Unit :=
  write w text.toUTF8

end Writer

/-!
## Text reports

A chain is a header and one line per frame. A group starts with three lines that name it and count
its chains. Inner groups are indented by four blanks per level; the outermost level is not.
-/

/-- A text report in progress. -/
structure TextReport (ω : Type) where
  out : ω
  /-- How many groups are open. -/
  depth : Nat := 0

namespace TextReport

variable {ω : Type}

/-- The mark in front of the lines that start a group. -/
def marker : GroupKind → String
  | .assembly => "###"
  | .category => "@@@"
  | .dependency | .method => "---"

/-- What stands before the label of a group. -/
def title : GroupKind → String
  | .assembly => "assembly: "
  | .category => "category: "
  | .dependency => ""
  | .method => "stacktraces for group: "

/-- The blanks at the start of a line inside `depth` groups. -/
def indent (depth : Nat) : String :=
  .ofList (List.replicate (4 * (depth - 1)) ' ')

/-- Lines with their indentation and their ends. -/
def lines (depth : Nat) (ls : List String) : String :=
  "".intercalate (ls.map fun l ↦ indent depth ++ l ++ "\n")

/-- The lines that start a group. -/
def groupLines (kind : GroupKind) (label : String) (count : Nat) : List String :=
  [marker kind, marker kind ++ " " ++ title kind ++ label ++ " (" ++ toString count ++ ")",
    marker kind]

/-- The lines of a chain. -/
def chainLines (c : Chain) : List String :=
  c.header :: c.frames

variable [Writer ω]

/-- Writes lines at the current depth. -/
def put (r : TextReport ω) (ls : List String) : TextReport ω × Except Error Unit :=
  let (out, result) := Writer.writeText r.out (lines r.depth ls)
  ({ r with out }, result.mapError .output)

/-- Takes a delivery. The depth grows before the start of a group is written. -/
def receive (r : TextReport ω) : Delivery → TextReport ω × Except Error Unit
  | .openGroup kind label count =>
    { r with depth := r.depth + 1 }.put (groupLines kind label count)
  | .chain c => r.put (chainLines c)
  | .closeGroup => ({ r with depth := r.depth - 1 }, .ok ())
  | .finish =>
    let (out, result) := Writer.flush r.out
    ({ r with out }, result.mapError .output)

instance : Receiver (TextReport ω) where
  receive := receive

end TextReport

/-!
## JSON reports

The report is one JSON array. Its items are the chains, or the outermost groups when chains are
grouped, and each item is written as soon as it is complete. A group that is open is held back, with
the chains and groups inside it.
-/

/-- A group that has been opened and not closed. -/
structure PendingGroup where
  kind : GroupKind
  label : String
  count : Nat
  chains : Array Json := #[]
  groups : Array Json := #[]

/-- The object of a complete group: its inner groups if it has any, else its chains. -/
def PendingGroup.toJson (g : PendingGroup) : Json :=
  let head := [("count", Json.nat g.count), ("group", .str g.label)]
  let kind := [("kind", Json.str g.kind.name)]
  if g.groups.isEmpty then .obj (("chains", .arr g.chains.toList) :: (head ++ kind))
  else .obj (head ++ ("groups", .arr g.groups.toList) :: kind)

/-- The object of a chain. -/
def Chain.toJson (c : Chain) : Json :=
  .obj [("annotation", .str c.note.text), ("category", .str c.category),
    ("frames", .arr (c.frames.map .str))]

/-- A JSON report in progress. -/
structure JsonReport (ω : Type) where
  out : ω
  /-- The open groups, innermost first. -/
  pending : List PendingGroup := []
  /-- How many items have been written. -/
  written : Nat := 0
  finished : Bool := false

namespace JsonReport

variable {ω : Type} [Writer ω]

/-- What is written for an item, after `written` others. -/
def itemText (written : Nat) (item : Json) : String :=
  (if written = 0 then "[\n" else ",\n") ++ item.pretty

/-- What is written at the end, after `written` items. -/
def closing (written : Nat) : String :=
  if written = 0 then "[]\n" else "\n]\n"

/-- Writes an item. One that could not be written in full is not counted. -/
def writeItem (r : JsonReport ω) (item : Json) : JsonReport ω × Except Error Unit :=
  if r.finished then (r, .error (.internal "JSON sink used after finish"))
  else
    match Writer.writeText r.out (itemText r.written item) with
    | (out, .ok ()) => ({ r with out, written := r.written + 1 }, .ok ())
    | (out, .error fault) => ({ r with out }, .error (.output fault))

/-- Ends the document, once. -/
def close (r : JsonReport ω) : JsonReport ω × Except Error Unit :=
  if r.finished then (r, .ok ())
  else
    match Writer.writeText r.out (closing r.written) with
    | (out, .error fault) => ({ r with out, finished := true }, .error (.output fault))
    | (out, .ok ()) =>
      let (out, result) := Writer.flush out
      ({ r with out, finished := true }, result.mapError .output)

/-- Takes a delivery. -/
def receive (r : JsonReport ω) : Delivery → JsonReport ω × Except Error Unit
  | .openGroup kind label count =>
    ({ r with pending := { kind, label, count } :: r.pending }, .ok ())
  | .chain c =>
    match r.pending with
    | [] => r.writeItem c.toJson
    | g :: outer =>
      ({ r with pending := { g with chains := g.chains.push c.toJson } :: outer }, .ok ())
  | .closeGroup =>
    match r.pending with
    | [] => (r, .error (.internal "unbalanced group in JSON sink"))
    | [g] => { r with pending := [] }.writeItem g.toJson
    | g :: parent :: outer =>
      let parent := { parent with groups := parent.groups.push g.toJson }
      ({ r with pending := parent :: outer }, .ok ())
  | .finish =>
    if r.pending.isEmpty then r.close
    else (r, .error (.internal "JSON sink finished with open groups"))

instance : Receiver (JsonReport ω) where
  receive := receive

end JsonReport

end HazardTrace

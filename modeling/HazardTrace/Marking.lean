import HazardTrace.Collections
import HazardTrace.Note

/-!
# Markings

The state of knowledge about every method: its note, if it has one, and whether it is marked safe. A
configured note is final. A record of unresolved calls grows, and a configured note replaces it.
-/

namespace HazardTrace

open Log (event)

/-- What is known about one method. -/
structure Mark where
  note : Option Note := none
  safe : Bool := false
deriving DecidableEq, Repr

/-- How a search treats a method. -/
inductive Standing where
  /-- Annotated and not safe: searches start here. -/
  | hazard
  /-- Marked safe: no search goes past it. -/
  | safe
  /-- Nothing is known about it. -/
  | plain
deriving DecidableEq, Repr

/-- How a search treats a method with a given mark. -/
def Mark.standing (m : Mark) : Standing :=
  if m.safe then .safe else if m.note.isSome then .hazard else .plain

/-- Can the note still be replaced? -/
def Mark.isOpen (m : Mark) : Bool :=
  !(m.note.any Note.isConfigured)

/-- The marks of all methods, by number. -/
structure Marking where
  marks : Array Mark
deriving DecidableEq, Repr

namespace Marking

/-- Nothing is known about any of `n` methods. -/
def blank (n : Nat) : Marking :=
  ⟨Array.replicate n {}⟩

/-- The number of methods. -/
def size (m : Marking) : Nat :=
  m.marks.size

/-- The note of a method. -/
def note? (m : Marking) (node : Nat) : Option Note :=
  m.marks[node]?.bind (·.note)

/-- Is the method marked safe? -/
def isSafe (m : Marking) (node : Nat) : Bool :=
  m.marks[node]?.any (·.safe)

/-- How a search treats a method. -/
def standing (m : Marking) (node : Nat) : Standing :=
  (m.marks[node]?.map Mark.standing).getD .plain

/-- Is the method annotated and not safe? -/
def isHazard (m : Marking) (node : Nat) : Bool :=
  m.standing node == .hazard

/-- For each method, whether it is a hazard. -/
def hazardFlags (m : Marking) : Array Bool :=
  m.marks.map (·.standing == .hazard)

/-- For each method, whether it is safe. -/
def safeFlags (m : Marking) : Array Bool :=
  m.marks.map (·.safe)

/-- How many hazards there are in each category. -/
def hazardsPerCategory (m : Marking) : List (String × Nat) :=
  tally <| (m.marks.toList.filter (·.standing == .hazard)).filterMap fun mark ↦
    mark.note.map Note.category

/-- Puts a note on a method, whatever it carried before. -/
def put (m : Marking) (node : Nat) (a : Note) : Marking :=
  ⟨m.marks.modify node fun mark ↦ { mark with note := some a }⟩

/-- Attaches a configured note. A method that already has a configured one keeps it; the answer
tells whether the note was taken. -/
def annotate (m : Marking) (node : Nat) (a : Note) : Logged (Bool × Marking) :=
  match m.marks[node]? with
  | none => pure (false, m)
  | some mark =>
    match mark.note with
    | none | some (.unanalyzed _) => pure (true, m.put node a)
    | some existing => do
      Logged.log <| event .warn .marking "method already has an annotation, ignoring another one"
        [("node", .number node), ("existing", .text existing.text), ("rejected", .text a.text)]
      pure (false, m)

/-- Adds an unresolved reflective call to the record of a method, unless the method has a configured
note; the answer tells whether the call was taken. -/
def addCall (m : Marking) (node : Nat) (call : ReflectiveCall) : Logged (Bool × Marking) :=
  match m.marks[node]? with
  | none => pure (false, m)
  | some mark =>
    match mark.note with
    | none => pure (true, m.put node (.unanalyzed [call]))
    | some (.unanalyzed calls) => pure (true, m.put node (.unanalyzed (calls ++ [call])))
    | some existing => do
      Logged.log <|
        event .debug .marking "configured annotation takes precedence over unanalyzed call"
          [("node", .number node), ("existing", .text existing.text)]
      pure (false, m)

/-- Marks a method safe. -/
def markSafe (m : Marking) (node : Nat) : Marking :=
  ⟨m.marks.modify node fun mark ↦ { mark with safe := true }⟩

@[simp]
theorem size_blank (n : Nat) : (blank n).size = n := by
  simp [blank, size]

@[simp]
theorem size_put (m : Marking) (node : Nat) (a : Note) : (m.put node a).size = m.size := by
  simp [put, size]

@[simp]
theorem size_markSafe (m : Marking) (node : Nat) : (m.markSafe node).size = m.size := by
  simp [markSafe, size]

/-- How many methods can still take a note. -/
def openCount (m : Marking) : Nat :=
  m.marks.countP Mark.isOpen

/-- A configured note put on an open method closes it. -/
theorem openCount_put {m : Marking} {node : Nat} {mark : Mark} {a : Note}
    (hmark : m.marks[node]? = some mark) (hopen : mark.isOpen = true)
    (ha : a.isConfigured = true) : (m.put node a).openCount + 1 = m.openCount := by
  obtain ⟨hlt, rfl⟩ := Array.getElem?_eq_some_iff.1 hmark
  have hput : (m.put node a).marks =
      m.marks.set node { m.marks[node] with note := some a } hlt := by
    apply Array.ext_getElem?
    intro j
    simp only [put, Array.getElem?_modify, Array.getElem?_set]
    by_cases h : node = j
    · subst h
      simp [hlt]
    · simp [h]
  have hpos : 0 < m.openCount :=
    Array.countP_pos_iff.2 ⟨m.marks[node], Array.getElem_mem hlt, hopen⟩
  unfold openCount at hpos ⊢
  have hclosed : Mark.isOpen { m.marks[node] with note := some a } = false := by
    simp [Mark.isOpen, ha]
  rw [hput, Array.countP_set, hopen, hclosed]
  simp only [if_true]
  simp
  omega

end Marking

end HazardTrace

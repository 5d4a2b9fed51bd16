import HazardTrace.Collections
import HazardTrace.Log
import HazardTrace.Marking
import HazardTrace.Numbering
import Std.Data.TreeMap

/-!
# Inherited warnings

A warning on a virtual method holds for every method that overrides it, directly or through other
overrides. A method that has no configured note takes the warning and passes it on; a configured
note is kept and ends the line. Each method closes at most once, so the number of open methods
together with the number of waiting ones falls with every step, also when the override relation is
cyclic.
-/

namespace HazardTrace

/-!
## Overrides

Which methods directly override a given method. The relation comes from outside and may be cyclic.
-/

/-- For each base, the methods that override it, in the order in which they were first added. -/
structure Overrides where
  byBase : Std.TreeMap Nat (List Nat) := {}

namespace Overrides

/-- The methods that directly override `base`. -/
def of (o : Overrides) (base : Nat) : List Nat :=
  o.byBase.getD base []

/-- Adds a pair; a pair that is known already changes nothing. -/
def add (o : Overrides) (base overriding : Nat) : Overrides :=
  if overriding ∈ o.of base then o
  else ⟨o.byBase.insert base (o.of base ++ [overriding])⟩

/-- The number of different pairs. -/
def pairCount (o : Overrides) : Nat :=
  (o.byBase.toList.flatMap (·.2)).length

theorem of_add (o : Overrides) (base overriding b : Nat) :
    (o.add base overriding).of b =
      if base = b ∧ overriding ∉ o.of base then o.of base ++ [overriding] else o.of b := by
  unfold add
  split
  · simp_all
  next h =>
    simp only [of, Std.TreeMap.getD_insert, Std.compare_eq_iff_eq]
    by_cases hb : base = b <;> simp_all [of]

/-- The overrides among numbered methods. A pair that names an unknown method is skipped, and the
number of skipped pairs is logged. -/
def ofPairs {α : Type} (s : Numbering α) (pairs : List (String × String)) : Logged Overrides :=
  let known := pairs.filterMap fun (base, overriding) ↦ do
    return (← s.number? base, ← s.number? overriding)
  let skipped := pairs.length - known.length
  let overrides := known.foldl (fun o p ↦ o.add p.1 p.2) {}
  ⟨overrides,
    if skipped = 0 then []
    else [Log.event .debug .overrides "override pairs referencing unknown methods"
      [("skipped", .number skipped)]]⟩

end Overrides

/-! ## Inherited warnings -/

section

open Log (event)

namespace Inheritance

/-- What became of the inherited warnings. -/
structure Counts where
  /-- Methods without note that took a warning. -/
  applied : Nat := 0
  /-- Records of unresolved calls that a warning replaced. -/
  overwritten : Nat := 0
  /-- Warnings that met a configured note. -/
  conflicts : Nat := 0
deriving DecidableEq, Repr

/-- How many methods changed. -/
def Counts.changed (c : Counts) : Nat :=
  c.applied + c.overwritten

/-- A marking on which warnings are being passed on. -/
structure State where
  marking : Marking
  /-- Methods whose overrides are still to be visited, with the warning that they pass on. -/
  waiting : Worklist (Nat × Remark)
  counts : Counts := {}

namespace State

/-- Bounds the number of methods still to be visited. -/
def weight (st : State) : Nat :=
  st.marking.openCount + st.waiting.size

/-- `node` takes the warning `r` and will pass it on. -/
def take (st : State) (node : Nat) (r : Remark) (counts : Counts) : State :=
  { marking := st.marking.put node (.warn r)
    waiting := st.waiting.push (node, r)
    counts }

/-- The warning `r` of `base` reaches one method that overrides it. -/
def pass (base : Nat) (r : Remark) (st : State) (overriding : Nat) : Logged State :=
  match st.marking.marks[overriding]? with
  | none => pure st
  | some mark =>
    match mark.note with
    | none =>
      pure (st.take overriding r { st.counts with applied := st.counts.applied + 1 })
    | some (.unanalyzed calls) => do
      Logged.log <| event .info .marking "overwriting annotation with inherited warning"
        [("node", .number overriding), ("existing", .text (Note.unanalyzed calls).text)]
      pure (st.take overriding r { st.counts with overwritten := st.counts.overwritten + 1 })
    | some existing => do
      Logged.log <|
        if existing = .warn r then
          event .debug .marking "override already carries the inherited annotation"
            [("node", .number overriding), ("base", .number base)]
        else
          event .warn .marking "skipping implied annotation since the override already has one"
            [("node", .number overriding), ("base", .number base),
              ("existing", .text existing.text), ("inherited", .text (Note.warn r).text)]
      pure { st with counts := { st.counts with conflicts := st.counts.conflicts + 1 } }

theorem weight_take {st : State} {node : Nat} {r : Remark} {counts : Counts} {mark : Mark}
    (hmark : st.marking.marks[node]? = some mark) (hopen : mark.isOpen = true) :
    (st.take node r counts).weight = st.weight := by
  have h := Marking.openCount_put hmark hopen (a := .warn r) rfl
  simp only [weight, take, Worklist.size_push]
  omega

theorem weight_pass (base : Nat) (r : Remark) (st : State) (overriding : Nat) :
    (pass base r st overriding).value.weight = st.weight := by
  unfold pass
  split
  · rfl
  next mark hmark =>
    split
    next hnone => exact weight_take hmark (by simp [Mark.isOpen, hnone])
    next calls hcalls =>
      exact weight_take hmark (by simp [Mark.isOpen, hcalls, Note.isConfigured,
        Note.isUnanalyzed])
    · rfl

/-- The warning `r` of `base` reaches all methods in `overriding`, in order. -/
def passAll (base : Nat) (r : Remark) (overriding : List Nat) (st : State) : Logged State :=
  overriding.foldlM (pass base r) st

theorem weight_passAll (base : Nat) (r : Remark) (overriding : List Nat) (st : State) :
    (passAll base r overriding st).value.weight = st.weight := by
  unfold passAll
  rw [Logged.value_foldlM]
  induction overriding generalizing st with
  | nil => rfl
  | cons o os ih => rw [List.foldl_cons, ih, weight_pass]

/-- Serves the waiting methods until none is left. -/
def run (overrides : Overrides) (st : State) : Logged State :=
  match _h : st.waiting.pop? with
  | none => pure st
  | some ((base, r), rest) =>
    let step := passAll base r (overrides.of base) { st with waiting := rest }
    (run overrides step.value).after step.events
termination_by st.weight
decreasing_by
  rw [weight_passAll]
  have := Worklist.size_of_pop? _h
  simp only [weight]
  omega

end State

end Inheritance

namespace Marking

open Inheritance

/-- The virtual methods that carry a warning, by number, each with its warning. -/
def virtualWarnings (m : Marking) (isVirtual : Array Bool) : List (Nat × Remark) :=
  m.marks.toList.zipIdx.filterMap fun (mark, i) ↦
    match mark.note with
    | some (.warn r) => if isVirtual[i]?.getD false then some (i, r) else none
    | _ => none

/-- Passes the warnings of virtual methods on to all methods that override them. -/
def inherit (m : Marking) (overrides : Overrides) (isVirtual : Array Bool) :
    Logged (Counts × Marking) := do
  let start : State := { marking := m, waiting := .ofList (m.virtualWarnings isVirtual) }
  let done ← start.run overrides
  Logged.log <| event .info .marking "propagated annotations to overrides"
    [("applied", .number done.counts.applied), ("overwritten", .number done.counts.overwritten),
      ("conflicts", .number done.counts.conflicts)]
  pure (done.counts, done.marking)

end Marking

end

end HazardTrace

import HazardTrace.Collections
import HazardTrace.Marking
import HazardTrace.Numbering
import Std.Data.TreeMap

/-!
# Reflective calls

What is known about the reflective calls of a program. A call whose target was resolved makes the
call edge safe. A call whose target is unknown is added to the record of the calling method.
-/

namespace HazardTrace

/-- A reflective call that was resolved, by the ids of its two ends. -/
structure ResolvedCall where
  caller : String
  target : String
deriving DecidableEq, Repr

/-- A reflective call whose target is unknown, by the ids of its two ends. -/
structure UnresolvedCall where
  caller : String
  target : String
  aspect : Aspect
  message : String
  category : Option String := none
deriving DecidableEq, Repr

/-- The reflective calls that a program graph reports. -/
structure ReflectionReport where
  recognized : List ResolvedCall := []
  unrecognized : List UnresolvedCall := []
deriving DecidableEq, Repr

/-- The verdicts on reflective calls between numbered methods. -/
structure Verdicts where
  /-- For each reflection method, the callers whose call into it was resolved. -/
  resolved : Std.TreeMap Nat (List Nat) := {}
  /-- For each caller, its unresolved calls in order of arrival. -/
  unresolved : Std.TreeMap Nat (List ReflectiveCall) := {}

namespace Verdicts

/-- The callers whose call into `target` was resolved. -/
def resolvedCallers (v : Verdicts) (target : Nat) : List Nat :=
  v.resolved.getD target []

/-- The unresolved calls of `caller`. -/
def unresolvedCalls (v : Verdicts) (caller : Nat) : List ReflectiveCall :=
  v.unresolved.getD caller []

/-- Records a resolved call; a second record of the same call changes nothing. -/
def addResolved (v : Verdicts) (caller target : Nat) : Verdicts :=
  if caller ∈ v.resolvedCallers target then v
  else { v with resolved := v.resolved.insert target (v.resolvedCallers target ++ [caller]) }

/-- Records an unresolved call. -/
def addUnresolved (v : Verdicts) (caller : Nat) (call : ReflectiveCall) : Verdicts :=
  { v with unresolved := v.unresolved.insert caller (v.unresolvedCalls caller ++ [call]) }

/-- The call site of an unresolved call, once its target is numbered. -/
def callSite (target : Nat) (aspect : Aspect) (message : String) (category : Option String) :
    ReflectiveCall :=
  ⟨target, ⟨category.getD Note.unanalyzedCategory, message, aspect⟩⟩

/-- The verdicts of a report. A verdict that names an unknown method is dropped, and the number of
dropped verdicts is logged. -/
def ofReport {α : Type} (r : ReflectionReport) (s : Numbering α) : Logged Verdicts :=
  let resolved := r.recognized.filterMap fun c ↦ do
    return (← s.number? c.caller, ← s.number? c.target)
  let unresolved := r.unrecognized.filterMap fun c ↦ do
    let caller ← s.number? c.caller
    return (caller, callSite (← s.number? c.target) c.aspect c.message c.category)
  let dropped := (r.recognized.length + r.unrecognized.length) -
    (resolved.length + unresolved.length)
  let verdicts := resolved.foldl (fun v p ↦ v.addResolved p.1 p.2) {}
  let verdicts := unresolved.foldl (fun v p ↦ v.addUnresolved p.1 p.2) verdicts
  ⟨verdicts,
    if dropped = 0 then []
    else [Log.event .debug .reflection "reflection verdicts referencing unknown methods"
      [("skipped", .number dropped)]]⟩

/-- Adds the calls of one caller to its record; the answer tells whether any was taken. -/
def applyCalls (caller : Nat) (calls : List ReflectiveCall) (m : Marking) :
    Logged (Bool × Marking) :=
  calls.foldlM (fun (taken, m) call ↦ do
    let (ok, m) ← m.addCall caller call
    pure (taken || ok, m)) (false, m)

/-- Adds all unresolved calls to the records of their callers, by ascending caller. The count is
that of the methods whose record grew. -/
def apply (v : Verdicts) (m : Marking) : Logged (Nat × Marking) :=
  v.unresolved.toList.foldlM (fun (touched, m) (caller, calls) ↦ do
    let (taken, m) ← applyCalls caller calls m
    pure (if taken then touched + 1 else touched, m)) (0, m)

/-- For each of `n` methods, the callers whose call into it was resolved, ascending. -/
def safeEdges (v : Verdicts) (n : Nat) : Array (List Nat) :=
  (buckets n v.resolved.toList).map fun lists ↦ ascending lists.flatten

/-- The number of resolved calls. -/
def resolvedCount (v : Verdicts) : Nat :=
  (v.resolved.toList.flatMap (·.2)).length

/-- The number of unresolved calls. -/
def unresolvedCount (v : Verdicts) : Nat :=
  (v.unresolved.toList.flatMap (·.2)).length

end Verdicts

end HazardTrace

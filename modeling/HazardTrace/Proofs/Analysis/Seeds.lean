import HazardTrace.Proofs.Analysis.Exposure
import HazardTrace.Proofs.Inheritance.Comparison
import HazardTrace.Proofs.Marking.Shadow

/-!
# Marks before inheritance

An analysis marks its methods in two stages. First each method is seeded by itself: the rules that
name it act on its mark in order, and then its unresolved calls are added (`seed`). After that
inheritance goes over the whole marking (`marking_prepare`), which leaves the safe methods as they
are (`isSafe_prepare_eq_seed`).

That each method is seeded by itself is `marks_seeded`. The program runs two loops over the whole
marking, one over the rules and one over the calls. Both loops act on each mark without regard to
the others (`Rule.marks_applyAll`, `Verdicts.marks_apply`), so the marking that they leave can be
written down mark by mark.

To compare the analyses of one program under two lists of rules it is therefore enough to compare
seeds, and to know what inheritance makes of the difference. The modules on safe rules and on
suppression do this, and the one on phases compares two orders of the loops.

What a mark does with calls is said once and for all numbers of calls: they change neither whether
the method is safe nor whether it is open, and a mark that is closed does not change at all.
-/

namespace HazardTrace

namespace Mark

variable {mark : Mark}

/-- The mark of a method in which some unresolved calls are found. -/
def addCalls (mark : Mark) (calls : List ReflectiveCall) : Mark :=
  calls.foldl addCall mark

theorem safe_addCall (mark : Mark) (call : ReflectiveCall) :
    (mark.addCall call).safe = mark.safe := by
  unfold addCall
  split <;> rfl

/-- A record of calls leaves a method open for a note. -/
theorem isOpen_addCall (mark : Mark) (call : ReflectiveCall) :
    (mark.addCall call).isOpen = mark.isOpen := by
  unfold addCall
  split
  next hnote => simp [isOpen, hnote, Note.isConfigured, Note.isUnanalyzed]
  next calls hnote => simp [isOpen, hnote, Note.isConfigured, Note.isUnanalyzed]
  · rfl

/-- A configured note turns a call away. -/
theorem addCall_of_closed (h : mark.isOpen = false) (call : ReflectiveCall) :
    mark.addCall call = mark := by
  unfold addCall
  split
  next hnote => simp [isOpen, hnote] at h
  next calls hnote => simp [isOpen, hnote, Note.isConfigured, Note.isUnanalyzed] at h
  · rfl

/-- What each call keeps, all calls keep. -/
theorem addCalls_keeps {α : Type} (f : Mark → α)
    (h : ∀ mark call, f (mark.addCall call) = f mark) (mark : Mark) (calls : List ReflectiveCall) :
    f (mark.addCalls calls) = f mark := by
  unfold addCalls
  induction calls generalizing mark with
  | nil => rfl
  | cons call calls ih => rw [List.foldl_cons, ih, h]

theorem safe_addCalls (mark : Mark) (calls : List ReflectiveCall) :
    (mark.addCalls calls).safe = mark.safe :=
  addCalls_keeps _ safe_addCall mark calls

theorem isOpen_addCalls (mark : Mark) (calls : List ReflectiveCall) :
    (mark.addCalls calls).isOpen = mark.isOpen :=
  addCalls_keeps _ isOpen_addCall mark calls

theorem addCalls_of_closed (h : mark.isOpen = false) (calls : List ReflectiveCall) :
    mark.addCalls calls = mark :=
  List.foldl_fixed' (addCall_of_closed h) calls

end Mark

/-- The flags for the graph say which methods are safe. -/
theorem Marking.isSafe_eq_safeFlags (m : Marking) (u : Nat) :
    m.isSafe u = m.safeFlags[u]?.getD false := by
  rw [isSafe, safeFlags, Array.getElem?_map]
  cases m.marks[u]? <;> rfl

/-- The pairs of overrides of a program, by number. -/
def Program.numberedOverrides (p : Program) : List (Nat × Nat) :=
  p.overrides.filterMap fun (base, overriding) ↦ do
    return (← p.numbering.number? base, ← p.numbering.number? overriding)

namespace Analysis

/-- The mark of one method before inheritance. -/
def seed (p : Program) (rules : List Rule) (u : Nat) : Mark :=
  (Rule.judgeAll rules p.numbering u {}).addCalls
    ((Verdicts.ofReport p.reflection p.numbering).value.unresolvedCalls u)

/-- The marking of a program before inheritance. -/
def seeded (p : Program) (rules : List Rule) : Marking :=
  ((Verdicts.ofReport p.reflection p.numbering).value.apply
    (Rule.applyAll rules p.numbering (.blank p.numbering.size)).value.marking).value.2

/-- **Each method is seeded by itself.** -/
theorem marks_seeded (p : Program) (rules : List Rule) (u : Nat) :
    (seeded p rules).marks[u]? =
      if u < p.numbering.size then some (seed p rules u) else none := by
  rw [seeded, Verdicts.marks_apply, Rule.marks_applyAll, Marking.blank, Array.getElem?_replicate]
  split <;> rfl

/-- The marking of an analysis is what inheritance makes of the seeded one. -/
theorem marking_prepare (p : Program) (rules : List Rule) :
    (prepare p rules).value.marking = ((seeded p rules).inherit (.ofNumbers p.numberedOverrides)
      (methodFlags p.numbering Method.isVirtual)).value.2 :=
  rfl

/-- The note of a method is the one that inheritance leaves it with. -/
theorem noteOf_prepare {p : Program} (rules : List Rule) {u : Nat} {id : String}
    (hu : p.numbering.id? u = some id) :
    (prepare p rules).value.noteOf id = ((seeded p rules).inherit (.ofNumbers p.numberedOverrides)
      (methodFlags p.numbering Method.isVirtual)).value.2.note? u := by
  have hu' : (prepare p rules).value.numbering.id? u = some id := hu
  rw [Prepared.noteOf_eq hu', marking_prepare]

/-- Inheritance makes no method safe. -/
theorem isSafe_prepare_eq_seed (p : Program) (rules : List Rule) {u : Nat}
    (hu : u < p.numbering.size) :
    (prepare p rules).value.marking.isSafe u = (seed p rules u).safe := by
  rw [marking_prepare, Marking.isSafe_eq_safeFlags,
    (Inheritance.settled_inherit ..).safeFlags_eq, ← Marking.isSafe_eq_safeFlags, Marking.isSafe,
    marks_seeded, if_pos hu]
  rfl

end Analysis

end HazardTrace

import HazardTrace.Proofs.Analysis.Relation

/-!
# The phases of seeding

A marking is seeded in two phases: rules put notes on methods, and unresolved calls are put on
record. The two may come in either order, which is `Marking.seeding_phases_commute`.

Both phases work on one mark at a time, so it is enough that they commute there
(`Rule.judgeAll_addCalls`), and that comes down to one rule and one call (`Rule.judge_addCall`). The
two orders take different branches on the way: a note turns away a call that comes later, and
replaces a call that came before. The call is lost either way. With a rule that has no note, neither
sees what the other does.

What the rules count does not depend on the calls. Of the marking it depends only on which methods
are open (`Rule.counts_applyAll_congr`), and a call opens or closes none (`Verdicts.isOpen_apply`).

The theorem also says what the marking is in the end, from any marking to start with. On a method
with a configured note that note stays. Any other method gets the note of the first rule that names
it and has one (`Rule.note?_applyAll_eq`), or else its calls, behind those that were there before
(`Verdicts.note?_apply`). And a method is safe if it was, or if a rule without a note names it.

Nothing is assumed of the marking. It may have fewer methods than are numbered, in which case both
phases leave out the others.
-/

namespace HazardTrace

namespace Mark

/-- A configured note and a call leave the same mark in either order. -/
theorem annotate_addCall {a : Note} (ha : a.isConfigured = true) (mark : Mark)
    (call : ReflectiveCall) : (mark.addCall call).annotate a = (mark.annotate a).addCall call := by
  -- a closed mark changes in neither order
  cases hopen : mark.isOpen with
  | false => rw [addCall_of_closed hopen, annotate_of_closed a hopen, addCall_of_closed hopen]
  | true =>
    have hopen' : (mark.addCall call).isOpen = true := (mark.isOpen_addCall call).trans hopen
    rw [addCall_of_closed (isOpen_annotate ha mark), annotate, if_pos hopen', annotate,
      if_pos hopen]
    exact congrArg (Mark.mk (some a)) (mark.safe_addCall call)

end Mark

namespace Rule

/-- **One rule and one call** leave the same mark in either order. -/
theorem judge_addCall (r : Rule) (mark : Mark) (call : ReflectiveCall) :
    r.judge (mark.addCall call) = (r.judge mark).addCall call := by
  cases hnote : r.note? with
  | some a =>
    rw [judge_of_note? hnote, judge_of_note? hnote,
      Mark.annotate_addCall (note?_isConfigured hnote)]
  | none =>
    rw [judge_of_note?_eq_none hnote, judge_of_note?_eq_none hnote]
    -- the safe flag and the note are changed apart from each other
    obtain ⟨note, safe⟩ := mark
    rcases note with - | r | r | calls <;> rfl

/-- All rules and one call. -/
theorem judgeAll_addCall (rules : List Rule) (s : Numbering Method) (u : Nat) (mark : Mark)
    (call : ReflectiveCall) :
    judgeAll rules s u (mark.addCall call) = (judgeAll rules s u mark).addCall call := by
  refine List.foldl_hom (fun mark : Mark ↦ mark.addCall call) fun mark r ↦ ?_
  show (if r.names s u then r.judge (mark.addCall call) else mark.addCall call) = _
  rw [r.judge_addCall mark call]
  split <;> rfl

/-- **Rules and calls** leave the same mark in either order. -/
theorem judgeAll_addCalls (rules : List Rule) (s : Numbering Method) (u : Nat) (mark : Mark)
    (calls : List ReflectiveCall) :
    judgeAll rules s u (mark.addCalls calls) = (judgeAll rules s u mark).addCalls calls :=
  (List.foldl_hom (judgeAll rules s u) fun mark call ↦
    (judgeAll_addCall rules s u mark call).symm).symm

/-- What rules count depends on which methods are open, and on nothing else in the marking. -/
theorem counts_applyAll_congr (rules : List Rule) (s : Numbering Method) {m m' : Marking}
    (hsize : m.size = m'.size) (hopen : ∀ u, m.isOpen u = m'.isOpen u) :
    (applyAll rules s m).value.counts = (applyAll rules s m').value.counts := by
  have htaken : (applyAll rules s m).value.counts.annotated =
      (applyAll rules s m').value.counts.annotated := by
    rw [annotated_applyAll, annotated_applyAll, hsize]
    simp only [isOpen_applyAll, hopen]
  have hnoted := (noted_applyAll rules s m).trans (noted_applyAll rules s m').symm
  have hduplicates : (applyAll rules s m).value.counts.duplicates =
      (applyAll rules s m').value.counts.duplicates := by omega
  have hsafe := (safe_applyAll rules s m).trans (safe_applyAll rules s m').symm
  have htypes :=
    (unresolvedTypes_applyAll rules s m).trans (unresolvedTypes_applyAll rules s m').symm
  have hmethods :=
    (unresolvedMethods_applyAll rules s m).trans (unresolvedMethods_applyAll rules s m').symm
  exact (Counts.mk.injEq ..).mpr ⟨htaken, hsafe, hduplicates, htypes, hmethods⟩

/-- Rules put a note on a method while it is open. -/
theorem note?_applyAll_eq (rules : List Rule) (s : Numbering Method) (m : Marking) (u : Nat) :
    (applyAll rules s m).value.marking.note? u =
      if m.isOpen u then (firstNote? rules s u).or (m.note? u) else m.note? u := by
  rw [Marking.note?, Marking.isOpen, Marking.note?, marks_applyAll]
  cases m.marks[u]? with
  | none => rfl
  | some mark => exact note_judgeAll rules s u mark

end Rule

namespace Verdicts

variable (v : Verdicts) (m : Marking) (u : Nat)

theorem size_apply : (v.apply m).value.2.size = m.size :=
  Marking.size_eq_of_marks (v.marks_apply m)

/-- A call neither opens nor closes a method. -/
theorem isOpen_apply : (v.apply m).value.2.isOpen u = m.isOpen u := by
  rw [Marking.isOpen, Marking.isOpen, marks_apply, Option.any_map]
  exact congrArg (Option.any · _) (funext fun mark ↦ mark.isOpen_addCalls _)

/-- An open method has its calls on record, behind those that it had before. -/
theorem note?_apply {m : Marking} {u : Nat} (hopen : m.isOpen u = true) :
    (v.apply m).value.2.note? u =
      if v.unresolvedCalls u = [] then m.note? u
      else some (.unanalyzed (m.recordedCalls u ++ v.unresolvedCalls u)) := by
  obtain ⟨mark, hmark, hmarkOpen⟩ := (Option.any_eq_true _ _).1 hopen
  have hbefore : m.note? u = mark.note := by rw [Marking.note?, hmark]; rfl
  have hafter : (v.apply m).value.2.note? u = (mark.addCalls (v.unresolvedCalls u)).note := by
    rw [Marking.note?, marks_apply, hmark]
    rfl
  rw [hafter, Marking.recordedCalls, hbefore]
  cases hnote : mark.note with
  | none =>
    cases v.unresolvedCalls u with
    | nil => exact hnote
    | cons call calls => exact Mark.note_addCalls_cons hnote call calls
  | some a =>
    cases a with
    | unanalyzed before =>
      rw [Mark.note_addCalls_of_unanalyzed hnote]
      cases v.unresolvedCalls u <;> simp
    | warn r | suppress r =>
      simp [Mark.isOpen, hnote, Note.isConfigured, Note.isUnanalyzed] at hmarkOpen

/-- A configured note turns all calls away. -/
theorem note?_apply_of_closed {m : Marking} {u : Nat} (hclosed : m.isOpen u = false) :
    (v.apply m).value.2.note? u = m.note? u := by
  rw [Marking.note?, Marking.note?, marks_apply]
  cases hmark : m.marks[u]? with
  | none => rfl
  | some mark =>
    have hmarkClosed : mark.isOpen = false := by rwa [Marking.isOpen, hmark] at hclosed
    exact congrArg Mark.note (Mark.addCalls_of_closed hmarkClosed _)

end Verdicts

namespace Marking

/-- **Rules and unresolved calls may be applied in either order**, whatever the marking holds before
and even if it has fewer methods than are numbered. The marking is the same afterwards, and so is
what the rules count. On a method that has a configured note, that note stays. Any other method gets
the note of the first rule that names it and has one; if there is none, its calls are on record
behind those that were there before. A method is safe if it was, or if a rule without a note names
it. -/
theorem seeding_phases_commute (rules : List Rule) (s : Numbering Method) (v : Verdicts)
    (m : Marking) :
    let rulesFirst := (Rule.applyAll rules s m).value
    let callsFirst := (Rule.applyAll rules s (v.apply m).value.2).value
    let seeded := (v.apply rulesFirst.marking).value.2
    seeded = callsFirst.marking ∧ rulesFirst.counts = callsFirst.counts ∧ seeded.size = m.size ∧
    ∀ u < m.size,
      seeded.note? u = (if (m.note? u).any Note.isConfigured then m.note? u
        else (Rule.firstNote? rules s u).or
          (if v.unresolvedCalls u = [] then m.note? u
            else some (.unanalyzed (m.recordedCalls u ++ v.unresolvedCalls u)))) ∧
      seeded.isSafe u = (m.isSafe u || rules.any fun r ↦ r.note?.isNone && r.names s u) := by
  intro rulesFirst callsFirst seeded
  have hmarks (u : Nat) : seeded.marks[u]? = m.marks[u]?.map fun mark ↦
      Rule.judgeAll rules s u (mark.addCalls (v.unresolvedCalls u)) := by
    show (v.apply (Rule.applyAll rules s m).value.marking).value.2.marks[u]? = _
    rw [Verdicts.marks_apply, Rule.marks_applyAll, Option.map_map]
    refine congrArg (Option.map · _) (funext fun mark ↦ ?_)
    exact (Rule.judgeAll_addCalls rules s u mark _).symm
  have hsame : seeded = callsFirst.marking := by
    refine congrArg Marking.mk (Array.ext_getElem? fun u ↦ (hmarks u).trans ?_)
    show _ = (Rule.applyAll rules s (v.apply m).value.2).value.marking.marks[u]?
    rw [Rule.marks_applyAll, Verdicts.marks_apply, Option.map_map]
    rfl
  have hcounts : rulesFirst.counts = callsFirst.counts :=
    Rule.counts_applyAll_congr rules s (v.size_apply m).symm fun u ↦ (v.isOpen_apply m u).symm
  refine ⟨hsame, hcounts, size_eq_of_marks hmarks, fun u hu ↦ ⟨?_, ?_⟩⟩
  · have hopen := isOpen_of_lt hu
    rw [hsame, Rule.note?_applyAll_eq, v.isOpen_apply]
    cases hconfigured : (m.note? u).any Note.isConfigured with
    | true =>
      rw [hconfigured] at hopen
      rw [hopen, v.note?_apply_of_closed hopen]
      rfl
    | false =>
      rw [hconfigured] at hopen
      rw [hopen, v.note?_apply hopen]
      rfl
  · have hmark : m.marks[u]? = some m.marks[u] := Array.getElem?_eq_getElem hu
    rw [isSafe, hmarks, hmark, isSafe, hmark]
    show (Rule.judgeAll rules s u _).safe = _
    rw [Rule.safe_judgeAll, Mark.safe_addCalls]
    rfl

end Marking

end HazardTrace

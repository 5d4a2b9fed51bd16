import HazardTrace.Proofs.Program.Numbering
import HazardTrace.Reflection
import HazardTrace.Rule
import Mathlib.Data.List.Basic

/-!
# Marks, one at a time

Rules and verdicts change a marking method by method: what becomes of a mark depends on that mark
and on what names the method, and on no other mark. So each operation on markings has a shadow on
marks, and its lemma says that the mark of `u` afterwards is the shadow applied to the mark of `u`
before (`marks_strike`, `Rule.marks_apply`, `Verdicts.marks_apply`). Folds keep that form
(`marks_foldl`), so the loops of the program are taken up one after the other, from the innermost
outwards.

A rule may strike a method several times, once for each pattern that matches it. Only the first time
counts, because `Rule.judge` is idempotent (`judge_judge`, `foldl_ite_of_idem`). Therefore
`Rule.marks_apply` asks no more than whether the rule names the method.

Unresolved calls are different, as each of them is recorded. They come in a table, one list for each
caller, and the table is gone through in an order of its own. For one method that order does not
matter: all lists but its own are of other callers (`flatMap_filter_unresolved`), and the calls of
its own list are in order (`Verdicts.marks_apply`).

With these lemmas a statement about markings is reduced to one about marks, which are small enough
for case distinctions. `Rules`, `Finality` and the modules on whole analyses use them in this way.
Inheritance has no shadow of this kind: what it does to a mark depends on the marks of other
methods.
-/

namespace HazardTrace

/-- Doing again what changes nothing any more: of the members with a property only the first one
matters. -/
theorem foldl_ite_of_idem {α β : Type} {f : α → α} (hf : ∀ a, f (f a) = f a) (p : β → Bool)
    (l : List β) (a : α) :
    l.foldl (fun a b ↦ if p b then f a else a) a = if l.any p then f a else a := by
  induction l generalizing a with
  | nil => rfl
  | cons b l ih =>
    rw [List.foldl_cons, ih, List.any_cons]
    cases p b <;> simp [hf]

namespace Mark

/-- The mark of a method that is given a configured note. -/
def annotate (a : Note) (mark : Mark) : Mark :=
  if mark.isOpen then { mark with note := some a } else mark

theorem annotate_of_closed (a : Note) {mark : Mark} (h : mark.isOpen = false) :
    mark.annotate a = mark := by
  rw [annotate, h]
  rfl

/-- A configured note leaves no mark open. -/
theorem isOpen_annotate {a : Note} (ha : a.isConfigured = true) (mark : Mark) :
    (mark.annotate a).isOpen = false := by
  cases h : mark.isOpen with
  | false => rw [annotate_of_closed a h, h]
  | true =>
    rw [annotate, if_pos h]
    simp [isOpen, ha]

/-- The mark of a method in which an unresolved call is found. -/
def addCall (mark : Mark) (call : ReflectiveCall) : Mark :=
  match mark.note with
  | none => { mark with note := some (.unanalyzed [call]) }
  | some (.unanalyzed calls) => { mark with note := some (.unanalyzed (calls ++ [call])) }
  | some _ => mark

end Mark

namespace Marking

variable {m : Marking} {node : Nat} {f : Mark → Mark}

/-! ### Operations on one method -/

/-- The form that all lemmas of this module have: one mark is modified, the others stay. -/
theorem getElem?_modify_mark (marks : Array Mark) (node : Nat) (f : Mark → Mark) (u : Nat) :
    (marks.modify node f)[u]? = marks[u]?.map fun mark ↦ if node = u then f mark else mark := by
  rw [Array.getElem?_modify]
  by_cases h : node = u
  · simp only [h, if_true]
  · simp [h]

/-- Nothing is done to the marking, and the shadow does nothing to the mark. -/
theorem marks_keep (h : ∀ mark, m.marks[node]? = some mark → f mark = mark) (u : Nat) :
    m.marks[u]? = m.marks[u]?.map fun mark ↦ if node = u then f mark else mark := by
  cases hu : m.marks[u]? with
  | none => rfl
  | some mark =>
    by_cases hnode : node = u
    · subst hnode
      simp [h mark hu]
    · simp [hnode]

/-- A note is put on the method, as the shadow puts it on the mark. -/
theorem marks_put {a : Note} {mark : Mark} (hmark : m.marks[node]? = some mark)
    (h : f mark = { mark with note := some a }) (u : Nat) :
    (m.put node a).marks[u]? = m.marks[u]?.map fun mark ↦ if node = u then f mark else mark := by
  rw [put, getElem?_modify_mark]
  by_cases hnode : node = u
  · subst hnode
    simp [hmark, h]
  · simp [hnode]

/-- A note is attached. -/
theorem marks_annotate (m : Marking) (node : Nat) (a : Note) (u : Nat) :
    (m.annotate node a).value.2.marks[u]? =
      m.marks[u]?.map fun mark ↦ if node = u then mark.annotate a else mark := by
  rw [annotate]
  split
  next hnone =>
    refine marks_keep (fun mark hmark ↦ ?_) u
    cases hnone.symm.trans hmark
  next mark hmark =>
    split
    next hnote => exact marks_put hmark (by simp [Mark.annotate, Mark.isOpen, hnote]) u
    next calls hnote =>
      exact marks_put hmark (by simp [Mark.annotate, Mark.isOpen, hnote, Note.isConfigured,
        Note.isUnanalyzed]) u
    next existing hother hnote =>
      refine marks_keep (fun mark' hmark' ↦ ?_) u
      obtain rfl := Option.some.inj (hmark.symm.trans hmark')
      cases existing with
      | unanalyzed calls => exact absurd rfl (hother calls)
      | warn r | suppress r =>
        simp [Mark.annotate, Mark.isOpen, hnote, Note.isConfigured, Note.isUnanalyzed]

/-- An unresolved call is recorded. -/
theorem marks_addCall (m : Marking) (node : Nat) (call : ReflectiveCall) (u : Nat) :
    (m.addCall node call).value.2.marks[u]? =
      m.marks[u]?.map fun mark ↦ if node = u then mark.addCall call else mark := by
  rw [addCall]
  split
  next hnone =>
    refine marks_keep (fun mark hmark ↦ ?_) u
    cases hnone.symm.trans hmark
  next mark hmark =>
    split
    next hnote => exact marks_put hmark (by rw [Mark.addCall, hnote]) u
    next calls hnote => exact marks_put hmark (by rw [Mark.addCall, hnote]) u
    next existing hother hnote =>
      refine marks_keep (fun mark' hmark' ↦ ?_) u
      obtain rfl := Option.some.inj (hmark.symm.trans hmark')
      cases existing with
      | unanalyzed calls => exact absurd rfl (hother calls)
      | warn r | suppress r => rw [Mark.addCall, hnote]

theorem marks_markSafe (m : Marking) (node u : Nat) :
    (m.markSafe node).marks[u]? =
      m.marks[u]?.map fun mark ↦ if node = u then { mark with safe := true } else mark :=
  getElem?_modify_mark ..

/-- Steps that change marks one by one, taken one after the other. -/
theorem marks_foldl {β σ : Type} (marking : σ → Marking) {step : σ → β → σ}
    {f : β → Nat → Mark → Mark}
    (h : ∀ st b u, (marking (step st b)).marks[u]? = (marking st).marks[u]?.map (f b u))
    (l : List β) (st : σ) (u : Nat) :
    (marking (l.foldl step st)).marks[u]? =
      (marking st).marks[u]?.map fun mark ↦ l.foldl (fun mark b ↦ f b u mark) mark := by
  induction l generalizing st with
  | nil => simp
  | cons b l ih =>
    rw [List.foldl_cons, ih, h, Option.map_map]
    rfl

/-- What changes marks one by one neither adds a method nor takes one away. -/
theorem size_eq_of_marks {m' : Marking} {f : Nat → Mark → Mark}
    (h : ∀ u, m'.marks[u]? = m.marks[u]?.map (f u)) : m'.size = m.size := by
  have hout : ∀ u, m'.size ≤ u ↔ m.size ≤ u := by
    intro u
    rw [size, size, ← Array.getElem?_eq_none_iff, ← Array.getElem?_eq_none_iff, h,
      Option.map_eq_none_iff]
  exact Nat.le_antisymm ((hout _).2 (Nat.le_refl _)) ((hout _).1 (Nat.le_refl _))

end Marking

/-! ### Rules -/

namespace Numbering

/-- The known methods of a type, by their numbers. -/
theorem mem_methodsOf {s : Numbering Method} {typeName : String} {u : Nat} {method : Method} :
    (u, method) ∈ s.methodsOf typeName ↔
      s.detail? u = some method ∧ method.declaringType = typeName := by
  rw [methodsOf, List.mem_filter, mem_resolved, beq_iff_eq]

end Numbering

namespace Rule

/-- What a rule does to the mark of a method that it names. -/
def judge (r : Rule) (mark : Mark) : Mark :=
  match r.note? with
  | some a => mark.annotate a
  | none => { mark with safe := true }

/-- Does the rule name the method? Its type declares it, and one of its patterns matches. -/
def names (r : Rule) (s : Numbering Method) (u : Nat) : Bool :=
  (s.detail? u).any fun method ↦
    method.declaringType == r.typeName && r.patterns.any method.matchesPattern

/-- What rules, in order, do to the mark of a method. -/
def judgeAll (rules : List Rule) (s : Numbering Method) (u : Nat) (mark : Mark) : Mark :=
  rules.foldl (fun mark r ↦ if r.names s u then r.judge mark else mark) mark

/-- The note of a rule is a configured one. -/
theorem note?_isConfigured {r : Rule} {a : Note} (h : r.note? = some a) :
    a.isConfigured = true := by
  rw [note?] at h
  split at h <;> cases h <;> rfl

theorem judge_of_note? {r : Rule} {a : Note} (h : r.note? = some a) (mark : Mark) :
    r.judge mark = mark.annotate a := by
  rw [judge, h]

theorem judge_of_note?_eq_none {r : Rule} (h : r.note? = none) (mark : Mark) :
    r.judge mark = { mark with safe := true } := by
  rw [judge, h]

/-- A rule that strikes a method twice does what it does the first time. -/
theorem judge_judge (r : Rule) (mark : Mark) : r.judge (r.judge mark) = r.judge mark := by
  cases h : r.note? with
  | none => rw [judge_of_note?_eq_none h, judge_of_note?_eq_none h]
  | some a =>
    rw [judge_of_note? h, judge_of_note? h]
    refine Mark.annotate_of_closed a ?_
    rw [Mark.isOpen_annotate (note?_isConfigured h)]

/-- A rule strikes one method. -/
theorem marks_strike (r : Rule) (st : State) (node u : Nat) :
    (r.strike st node).value.marking.marks[u]? =
      st.marking.marks[u]?.map fun mark ↦ if node = u then r.judge mark else mark := by
  cases h : r.note? with
  | none =>
    simp only [strike, h, judge_of_note?_eq_none h]
    exact st.marking.marks_markSafe node u
  | some a =>
    simp only [strike, h, judge_of_note? h]
    exact st.marking.marks_annotate node a u

/-- One pattern of a rule strikes the methods it matches. -/
theorem marks_applyPattern (r : Rule) (methods : List (Nat × Method)) (st : State)
    (pattern : String) (u : Nat) :
    (r.applyPattern methods st pattern).value.marking.marks[u]? =
      st.marking.marks[u]?.map fun mark ↦
        if (methods.any fun p ↦ p.1 == u && p.2.matchesPattern pattern) then r.judge mark
        else mark := by
  have hnodes : ∀ nodes : List Nat,
      (nodes.foldlM r.strike st).value.marking.marks[u]? =
        st.marking.marks[u]?.map fun mark ↦ if nodes.any (· == u) then r.judge mark else mark := by
    intro nodes
    rw [Logged.value_foldlM, Marking.marks_foldl State.marking
      (f := fun node u mark ↦ if node = u then r.judge mark else mark) (fun st node u ↦
        r.marks_strike st node u)]
    refine congrArg (Option.map · _) (funext fun mark ↦ ?_)
    simpa using foldl_ite_of_idem r.judge_judge (· == u) nodes mark
  have hany : ((methods.filter (·.2.matchesPattern pattern)).map (·.1)).any (· == u) =
      methods.any fun p ↦ p.1 == u && p.2.matchesPattern pattern := by
    rw [List.any_map, List.any_filter]
    simp [Bool.and_comm]
  rw [← hany, ← hnodes]
  unfold applyPattern
  split
  next hnil => simp [hnil]
  · rfl

/-- **A rule changes the marks of the methods it names**, each by itself. -/
theorem marks_apply (s : Numbering Method) (st : State) (r : Rule) (u : Nat) :
    (apply s st r).value.marking.marks[u]? =
      st.marking.marks[u]?.map fun mark ↦ if r.names s u then r.judge mark else mark := by
  have hpatterns : ∀ methods : List (Nat × Method),
      (r.patterns.foldlM (r.applyPattern methods) st).value.marking.marks[u]? =
        st.marking.marks[u]?.map fun mark ↦
          if (r.patterns.any fun pattern ↦
            methods.any fun p ↦ p.1 == u && p.2.matchesPattern pattern) then r.judge mark
          else mark := by
    intro methods
    rw [Logged.value_foldlM, Marking.marks_foldl State.marking
      (fun st pattern u ↦ r.marks_applyPattern methods st pattern u)]
    refine congrArg (Option.map · _) (funext fun mark ↦ ?_)
    exact foldl_ite_of_idem r.judge_judge _ r.patterns mark
  have hnames : (r.patterns.any fun pattern ↦
      (s.methodsOf r.typeName).any fun p ↦ p.1 == u && p.2.matchesPattern pattern) =
        r.names s u := by
    rw [Bool.eq_iff_iff, names, List.any_eq_true, Option.any_eq_true]
    constructor
    · rintro ⟨pattern, hpattern, hany⟩
      obtain ⟨⟨u', method⟩, hmem, hboth⟩ := List.any_eq_true.1 hany
      obtain ⟨hu, hmatch⟩ := Bool.and_eq_true_iff.1 hboth
      obtain rfl : u' = u := beq_iff_eq.1 hu
      obtain ⟨hdetail, htype⟩ := Numbering.mem_methodsOf.1 hmem
      refine ⟨method, hdetail, Bool.and_eq_true_iff.2 ⟨beq_iff_eq.2 htype, ?_⟩⟩
      exact List.any_eq_true.2 ⟨pattern, hpattern, hmatch⟩
    · rintro ⟨method, hdetail, hmatch⟩
      obtain ⟨htype, hany⟩ := Bool.and_eq_true_iff.1 hmatch
      obtain ⟨pattern, hpattern, hmatch⟩ := List.any_eq_true.1 hany
      refine ⟨pattern, hpattern, List.any_eq_true.2 ⟨(u, method), ?_, by simpa using hmatch⟩⟩
      exact Numbering.mem_methodsOf.2 ⟨hdetail, beq_iff_eq.1 htype⟩
  rw [← hnames, ← hpatterns]
  unfold apply
  split
  next hnil =>
    rw [hpatterns]
    simp [hnil]
  · rfl

theorem marks_applyAll (rules : List Rule) (s : Numbering Method) (m : Marking) (u : Nat) :
    (applyAll rules s m).value.marking.marks[u]? = m.marks[u]?.map (judgeAll rules s u) := by
  have hfold := Marking.marks_foldl State.marking
    (fun st r u ↦ marks_apply s st r u) rules { marking := m } u
  rwa [← Logged.value_foldlM] at hfold

end Rule

/-! ### Verdicts -/

namespace Verdicts

/-- All unresolved calls of one caller are recorded. -/
theorem marks_applyCalls (caller : Nat) (calls : List ReflectiveCall) (m : Marking) (u : Nat) :
    (applyCalls caller calls m).value.2.marks[u]? =
      m.marks[u]?.map fun mark ↦ if caller = u then calls.foldl Mark.addCall mark else mark := by
  unfold applyCalls
  rw [Logged.value_foldlM]
  refine (Marking.marks_foldl Prod.snd
    (f := fun call u mark ↦ if caller = u then mark.addCall call else mark)
    (fun p call u ↦ ?_) calls (false, m) u).trans ?_
  · exact p.2.marks_addCall caller call u
  · by_cases hcaller : caller = u <;> simp [hcaller, List.foldl_fixed]

/-- The table of unresolved calls has at most one list for each caller. -/
theorem flatMap_filter_unresolved (v : Verdicts) (u : Nat) :
    (v.unresolved.toList.filter (·.1 == u)).flatMap (·.2) = v.unresolvedCalls u := by
  rw [unresolvedCalls, Std.TreeMap.getD_eq_getD_getElem?]
  cases hu : v.unresolved[u]? with
  | none =>
    have hnil : v.unresolved.toList.filter (·.1 == u) = [] := by
      refine List.filter_eq_nil_iff.2 fun p hp hkey ↦ ?_
      obtain rfl := beq_iff_eq.1 hkey
      rw [Std.TreeMap.mem_toList_iff_getElem?_eq_some.1 hp] at hu
      cases hu
    rw [hnil]
    rfl
  | some calls =>
    obtain ⟨before, behind, hsplit⟩ :=
      List.append_of_mem (Std.TreeMap.mem_toList_iff_getElem?_eq_some.2 hu)
    have hdistinct := v.unresolved.distinct_keys_toList
    rw [hsplit, List.pairwise_append, List.pairwise_cons] at hdistinct
    obtain ⟨-, ⟨hbehind, -⟩, hbefore⟩ := hdistinct
    have hbefore' : before.filter (·.1 == u) = [] := by
      refine List.filter_eq_nil_iff.2 fun p hp hkey ↦ ?_
      simpa [beq_iff_eq.1 hkey] using hbefore p hp (u, calls) List.mem_cons_self
    have hbehind' : behind.filter (·.1 == u) = [] := by
      refine List.filter_eq_nil_iff.2 fun p hp hkey ↦ ?_
      simpa [beq_iff_eq.1 hkey] using hbehind p hp
    simp [hsplit, hbefore', hbehind']

/-- **Verdicts add its unresolved calls to the mark of each method.** -/
theorem marks_apply (v : Verdicts) (m : Marking) (u : Nat) :
    (v.apply m).value.2.marks[u]? =
      m.marks[u]?.map fun mark ↦ (v.unresolvedCalls u).foldl Mark.addCall mark := by
  have hfold : ∀ (l : List (Nat × List ReflectiveCall)) (mark : Mark),
      l.foldl (fun mark p ↦ if p.1 = u then p.2.foldl Mark.addCall mark else mark) mark =
        ((l.filter (·.1 == u)).flatMap (·.2)).foldl Mark.addCall mark := by
    intro l
    induction l with
    | nil => exact fun _ ↦ rfl
    | cons p l ih =>
      intro mark
      rw [List.foldl_cons, ih]
      by_cases hp : p.1 = u <;> simp [hp]
  unfold apply
  rw [Logged.value_foldlM]
  refine (Marking.marks_foldl Prod.snd
    (f := fun p u mark ↦ if p.1 = u then p.2.foldl Mark.addCall mark else mark)
    (fun p q u ↦ ?_) _ (0, m) u).trans ?_
  · exact marks_applyCalls q.1 q.2 p.2 u
  · simp only [hfold, flatMap_filter_unresolved]

end Verdicts

end HazardTrace

import HazardTrace.Proofs.Inheritance.Exactness
import Mathlib.Logic.Relation

/-!
# Who hands a warning on

`Settled` says which warnings a method can have by inheritance, and how far they have come. It does
not say from which of its bases the method took the one it has: of several bases at the same
distance it is the one that was served first. That is a fact about the run, and it is recorded here.

* `State.Serves overrides st st'`: the run goes from `st` to `st'` by serving one method.
* `Marking.Hands m pairs isVirtual base o`: when `base` was served in the inheritance of `m`, the
  method `o`, which overrides it, was still open.

So `Relation.TransGen (m.Hands pairs isVirtual)` joins a method with all those above it through
which its warning has come, and with no other, even where other lines of overrides lead down to it.

The relation is what its name says. A method is handed one warning at most (`hands_unique`), because
it is closed from then on, and the states of a run follow one another (`State.rightUnique_serves`).
A method that takes a warning was handed it, and the base that handed it carries the same one
(`Took.exists_hands`). For that, what waits has to carry the warning it waits with, in every state
that the run reaches (`Traced`). It is carried through the run like the other invariants: an
override, all overrides of a base, a method that is served (`Traced.pass`, `Traced.passAll`,
`Traced.serve`).
-/

namespace HazardTrace

namespace Inheritance

open Marking

/-! ### Serving one method -/

/-- The state in which inheritance begins. -/
def start (m : Marking) (isVirtual : Array Bool) : State :=
  { marking := m, waiting := .ofList (m.virtualWarnings isVirtual) }

namespace State

/-- `st'` is `st` after one more method has been served. -/
inductive Serves (overrides : Overrides) : State → State → Prop
  | serve {st : State} {base : Nat} {r : Remark} {rest : Worklist (Nat × Remark)} :
      st.waiting.pop? = some ((base, r), rest) →
        Serves overrides st (passAll base r (overrides.of base) { st with waiting := rest }).value

variable {overrides : Overrides} {st st' : State} {x : Nat}

/-- Which method is served next is no matter of choice. -/
theorem rightUnique_serves (overrides : Overrides) : Relator.RightUnique (Serves overrides) := by
  rintro st st₁ st₂ ⟨hpop⟩ ⟨hpop'⟩
  obtain ⟨⟨rfl, rfl⟩, rfl⟩ : (_ = _ ∧ _ = _) ∧ _ = _ := by
    simpa using hpop.symm.trans hpop'
  rfl

theorem Serves.isOpen_eq_false (h : Serves overrides st st')
    (hx : st.marking.isOpen x = false) : st'.marking.isOpen x = false := by
  obtain ⟨hpop⟩ := h
  exact isOpen_passAll_of_closed _ _ _ hx

/-- A method that is closed stays so for the rest of the run. -/
theorem isOpen_eq_false_of_reflTransGen (h : Relation.ReflTransGen (Serves overrides) st st')
    (hx : st.marking.isOpen x = false) : st'.marking.isOpen x = false := by
  induction h with
  | refl => exact hx
  | tail _ hstep ih => exact hstep.isOpen_eq_false ih

/-- Once a base has been served, no other finds the methods open that override it. -/
theorem base_eq_of_isOpen {pairs : List (Nat × Nat)} {base base' o : Nat} {r r' : Remark}
    {rest rest' : Worklist (Nat × Remark)} (hpop : st.waiting.pop? = some ((base, r), rest))
    (hmem : (base, o) ∈ pairs)
    (hreach : Relation.ReflTransGen (Serves (.ofNumbers pairs)) st st')
    (hpop' : st'.waiting.pop? = some ((base', r'), rest')) (hopen : st'.marking.isOpen o = true) :
    base = base' := by
  rcases Relation.ReflTransGen.cases_head hreach with rfl | ⟨st₁, hstep, hreach⟩
  · have heq := hpop.symm.trans hpop'
    simp only [Option.some.injEq, Prod.mk.injEq] at heq
    exact heq.1.1
  · have hclosed : st₁.marking.isOpen o = false := by
      rw [rightUnique_serves _ hstep (.serve hpop)]
      exact isOpen_passAll_of_mem base r _ (Overrides.mem_of_ofNumbers.2 hmem)
    cases (isOpen_eq_false_of_reflTransGen hreach hclosed).symm.trans hopen

end State

end Inheritance

/-! ### Handing a warning on -/

namespace Marking

open Inheritance

/-- In the inheritance of `m`, the method `o` takes its warning from `base`: when `base` is served,
`o` overrides it and is still open. -/
def Hands (m : Marking) (pairs : List (Nat × Nat)) (isVirtual : Array Bool) (base o : Nat) : Prop :=
  ∃ st r rest, Relation.ReflTransGen (State.Serves (.ofNumbers pairs)) (start m isVirtual) st ∧
    st.waiting.pop? = some ((base, r), rest) ∧ (base, o) ∈ pairs ∧ st.marking.isOpen o = true

variable {m : Marking} {pairs : List (Nat × Nat)} {isVirtual : Array Bool} {base base' o : Nat}

/-- Warnings are handed on along the overrides. -/
theorem Hands.mem (h : m.Hands pairs isVirtual base o) : (base, o) ∈ pairs := by
  obtain ⟨_, _, _, _, _, hmem, _⟩ := h
  exact hmem

/-- **A method is handed one warning at most.** -/
theorem hands_unique (h : m.Hands pairs isVirtual base o) (h' : m.Hands pairs isVirtual base' o) :
    base = base' := by
  obtain ⟨st, r, rest, hreach, hpop, hmem, hopen⟩ := h
  obtain ⟨st', r', rest', hreach', hpop', hmem', hopen'⟩ := h'
  rcases Relation.ReflTransGen.total_of_right_unique (State.rightUnique_serves _) hreach hreach'
    with hfirst | hfirst
  · exact State.base_eq_of_isOpen hpop hmem hfirst hpop' hopen'
  · exact (State.base_eq_of_isOpen hpop' hmem' hfirst hpop hopen).symm

end Marking

namespace Inheritance

open Marking

variable {m m' : Marking} {pairs : List (Nat × Nat)} {isVirtual : Array Bool} {r : Remark}
  {base o k : Nat} {st : State} {rest : Worklist (Nat × Remark)}

/-- What waits carries the warning that it waits with, and what has been closed in the course of the
run was handed the warning that it carries, by a method that carries it as well. -/
structure Traced (m : Marking) (pairs : List (Nat × Nat)) (isVirtual : Array Bool) (st : State) :
    Prop where
  carried : ∀ p ∈ st.waiting.toList, st.marking.note? p.1 = some (.warn p.2)
  handed : ∀ o, m.isOpen o = true → st.marking.isOpen o = false →
    ∃ base r, m.Hands pairs isVirtual base o ∧
      st.marking.note? base = some (.warn r) ∧ st.marking.note? o = some (.warn r)

namespace Traced

/-- At first only the methods with a warning of their own wait. -/
theorem start (m : Marking) (pairs : List (Nat × Nat)) (isVirtual : Array Bool) :
    Traced m pairs isVirtual (Inheritance.start m isVirtual) where
  carried p hp := by
    rw [Inheritance.start, Worklist.toList_ofList] at hp
    exact (mem_virtualWarnings.1 hp).note?
  handed o hopen hclosed := by cases hopen.symm.trans hclosed

/-- The step of one override. -/
theorem pass (h : Traced m pairs isVirtual st) (hbase : st.marking.note? base = some (.warn r))
    (hhands : st.marking.isOpen o = true → m.Hands pairs isVirtual base o) :
    Traced m pairs isVirtual (State.pass base r st o).value ∧
      (State.pass base r st o).value.marking.note? base = some (.warn r) := by
  obtain ⟨-, hmarking, hwaiting⟩ | ⟨hopen, hmarking, hwaiting⟩ := State.pass_cases base r st o
  · rw [hmarking]
    refine ⟨⟨?_, ?_⟩, hbase⟩
    · rw [hmarking, hwaiting]
      exact h.carried
    · rw [hmarking]
      exact h.handed
  · -- warnings that are there already are kept
    have hkeep : ∀ {x r'}, st.marking.note? x = some (.warn r') →
        (st.marking.put o (.warn r)).note? x = some (.warn r') := by
      intro x r' hx
      rw [note?_put_of_closed hopen _ (isOpen_eq_false_of_note? hx rfl), hx]
    rw [hmarking]
    refine ⟨⟨?_, ?_⟩, hkeep hbase⟩
    · rw [hmarking, hwaiting, Worklist.toList_push]
      intro p hp
      rcases List.mem_append.1 hp with hp | hp
      · exact hkeep (h.carried p hp)
      · obtain rfl := List.mem_singleton.1 hp
        exact note?_put_self hopen _
    · rw [hmarking]
      intro x hx hclosed
      by_cases hox : o = x
      · subst hox
        exact ⟨base, r, hhands hopen, hkeep hbase, note?_put_self hopen _⟩
      · rw [isOpen_put_warn, decide_eq_false hox, Bool.not_false, Bool.and_true] at hclosed
        obtain ⟨base', r', hbase', hnote, hnote'⟩ := h.handed x hx hclosed
        exact ⟨base', r', hbase', hkeep hnote, hkeep hnote'⟩

theorem passAll {os : List Nat} (h : Traced m pairs isVirtual st)
    (hbase : st.marking.note? base = some (.warn r))
    (hhands : ∀ o ∈ os, st.marking.isOpen o = true → m.Hands pairs isVirtual base o) :
    Traced m pairs isVirtual (State.passAll base r os st).value := by
  induction os generalizing st with
  | nil => exact h
  | cons o os ih =>
    obtain ⟨hnext, hbase'⟩ := h.pass hbase (hhands o List.mem_cons_self)
    rw [State.passAll_cons]
    refine ih hnext hbase' fun x hx hopen ↦ hhands x (List.mem_cons_of_mem o hx) ?_
    by_contra hclosed
    exact Bool.false_ne_true ((State.isOpen_pass_of_closed base r o
      (Bool.eq_false_of_not_eq_true hclosed)).symm.trans hopen)

/-- The step of one method that is served. -/
theorem serve (h : Traced m pairs isVirtual st)
    (hreach : Relation.ReflTransGen (State.Serves (.ofNumbers pairs))
      (Inheritance.start m isVirtual) st)
    (hpop : st.waiting.pop? = some ((base, r), rest)) :
    Traced m pairs isVirtual (State.passAll base r ((Overrides.ofNumbers pairs).of base)
      { st with waiting := rest }).value := by
  have hwaiting := Worklist.toList_of_pop? hpop
  have hpopped : Traced m pairs isVirtual { st with waiting := rest } :=
    ⟨fun p hp ↦ h.carried p (hwaiting ▸ List.mem_cons_of_mem _ hp), h.handed⟩
  refine hpopped.passAll (h.carried (base, r) (hwaiting ▸ List.mem_cons_self)) fun o ho hopen ↦ ?_
  exact ⟨st, r, rest, hreach, hpop, Overrides.mem_of_ofNumbers.1 ho, hopen⟩

end Traced

/-- **A method that takes a warning was handed it** by one of its bases, which carries the same
warning. -/
theorem Took.exists_hands
    (h : Took m pairs isVirtual (m.inherit (.ofNumbers pairs) isVirtual).value.2 r k o) :
    ∃ base, m.Hands pairs isVirtual base o ∧
      (m.inherit (.ofNumbers pairs) isVirtual).value.2.note? base = some (.warn r) := by
  obtain ⟨⟨-, htraced⟩, -⟩ := State.run_induction (.ofNumbers pairs)
    (P := fun st ↦ Relation.ReflTransGen (State.Serves (.ofNumbers pairs)) (start m isVirtual) st ∧
      Traced m pairs isVirtual st)
    ⟨.refl, .start m pairs isVirtual⟩
    fun _ _ _ _ ⟨hreach, htraced⟩ hpop ↦ ⟨hreach.tail (.serve hpop), htraced.serve hreach hpop⟩
  obtain ⟨base, r', hhands, hbase, ho⟩ := htraced.handed o h.isOpen h.isOpen_eq_false
  have heq := h.note?.symm.trans ho
  cases heq
  exact ⟨base, hhands, hbase⟩

end Inheritance

end HazardTrace

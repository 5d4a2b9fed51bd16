import HazardTrace.Proofs.Inheritance.Handing
import HazardTrace.Proofs.Ordering

/-!
# Two markings side by side

How inheritance answers to a change of the marking it starts from.

What a method inherits is not determined by distances alone: of two warnings that are equally near,
the one that is served first is taken. So two markings are compared by their runs. Let `m'` have the
same warnings to pass on as `m` and no method open that is not open in `m`, and let `A` be a set of
methods on which the two show the same notes, and which holds with a method also the one that hands
it its warning in the inheritance of `m`. Then both give the methods in `A` the same notes
(`notes_inherit_of_hands`).

The two runs do not keep pace: each serves methods outside `A` of which the other knows nothing. But
the run of `m` can always be kept ahead, in the following sense (`State.Leads`).

* The methods in `A` have the same notes in both states.
* The same methods in `A` wait in both, in the same order. Whatever else waits in the second state
  has been served in the first one, or waits there behind no more methods in `A` (`Ahead`).
* Whatever else is open in the second state and closed in the first has been served there, or waits
  there.

A method outside `A` that is served in the first state is no matter to `A`, since `A` would have to
hold it (`Leads.serve_left`). If it is served in the second state, and has been in the first, all
that overrides it is closed in the first state, and what of it lies in `A` in the second one as well
(`Leads.serve_right`). Methods in `A` are served together (`Leads.serve_both`). As long as
something waits, one of the three applies (`Leads.pop_cases`), and `Leads.notes_run` is the induction
along both runs at once.

If `A` is everything, this says that inheritance reads nothing but notes (`notes_inherit`), so safe
methods play no part in it. The other use is for a suppression that is put on open methods (`Adds`).
It can only stop warnings, so no method but a suppressed one is annotated that was not before
(`note?_inherit_of_adds`), and a method keeps its note if the suppression is put neither on it nor
on a method through which its warning has come (`note?_inherit_eq_of_adds`).
-/

namespace HazardTrace

namespace Marking

/-! ### Notes -/

/-- The notes of all methods, by number. -/
def notes (m : Marking) : Array (Option Note) :=
  m.marks.map (·.note)

theorem getElem?_notes (m : Marking) (u : Nat) : m.notes[u]? = m.marks[u]?.map (·.note) :=
  Array.getElem?_map

theorem note?_eq_notes (m : Marking) (u : Nat) : m.note? u = m.notes[u]?.join := by
  rw [getElem?_notes, note?]
  cases m.marks[u]? <;> rfl

/-- Notes say which methods are open. -/
theorem isOpen_eq_notes (m : Marking) (u : Nat) :
    m.isOpen u = m.notes[u]?.any fun note ↦ !note.any Note.isConfigured := by
  rw [getElem?_notes, isOpen, Option.any_map]
  rfl

/-- A note is put on one method. -/
theorem notes_put (m : Marking) (u : Nat) (a : Note) :
    (m.put u a).notes = m.notes.modify u fun _ ↦ some a := by
  refine Array.ext_getElem? fun i ↦ ?_
  rw [getElem?_notes, getElem?_put, Array.getElem?_modify, getElem?_notes]
  split
  · rw [Option.map_map, Option.map_map]
    rfl
  · rfl

/-- Inheritance starts from its warnings by number. -/
theorem pairwise_virtualWarnings (m : Marking) (isVirtual : Array Bool) :
    (m.virtualWarnings isVirtual).Pairwise fun p q ↦ p.1 < q.1 := by
  refine pairwise_filterMap_zipIdx ?_
  rintro ⟨mark, i⟩ x hx
  dsimp only at hx
  split at hx
  · obtain ⟨-, hx⟩ := Option.ite_none_right_eq_some.1 hx
    rw [← Option.some.inj hx]
  · cases hx

end Marking

namespace Inheritance

open Marking

/-! ### One queue ahead of another -/

/-- The queue `l` is ahead of the queue `l'`. In both the same methods in `A` wait, in the same
order. Any other method that waits in `l'` has been served on the other side, which is what `S`
says, or waits in `l` as well, behind no more methods in `A`. -/
inductive Ahead (A : Nat → Prop) :
    (Nat → Prop) → List (Nat × Remark) → List (Nat × Remark) → Prop
  | nil {S : Nat → Prop} : Ahead A S [] []
  | left {S : Nat → Prop} {p : Nat × Remark} {l l' : List (Nat × Remark)} :
      ¬ A p.1 → Ahead A (fun u ↦ S u ∨ u = p.1) l l' → Ahead A S (p :: l) l'
  | right {S : Nat → Prop} {p : Nat × Remark} {l l' : List (Nat × Remark)} :
      ¬ A p.1 → S p.1 → Ahead A S l l' → Ahead A S l (p :: l')
  | both {S : Nat → Prop} {p : Nat × Remark} {l l' : List (Nat × Remark)} :
      A p.1 → Ahead A S l l' → Ahead A S (p :: l) (p :: l')

namespace Ahead

variable {A S : Nat → Prop} {p p' : Nat × Remark} {l l' : List (Nat × Remark)}

/-- A queue is ahead of itself. -/
theorem refl (A S : Nat → Prop) (l : List (Nat × Remark)) : Ahead A S l l := by
  induction l generalizing S with
  | nil => exact .nil
  | cons p l ih =>
    by_cases hp : A p.1
    · exact .both hp (ih S)
    · exact .left hp (.right hp (.inr rfl) (ih _))

/-- A method in `A` joins both queues. -/
theorem push_both (h : Ahead A S l l') (hp : A p.1) : Ahead A S (l ++ [p]) (l' ++ [p]) := by
  induction h with
  | nil => exact .both hp .nil
  | left hq _ ih => exact .left hq ih
  | right hq hserved _ ih => exact .right hq hserved ih
  | both hq _ ih => exact .both hq ih

/-- Another method joins the first queue. -/
theorem push_left (h : Ahead A S l l') (hp : ¬ A p.1) : Ahead A S (l ++ [p]) l' := by
  induction h with
  | nil => exact .left hp .nil
  | left hq _ ih => exact .left hq ih
  | right hq hserved _ ih => exact .right hq hserved ih
  | both hq _ ih => exact .both hq ih

/-- Another method joins the second queue, after it has been served on the other side or has joined
the first queue. -/
theorem push_right (h : Ahead A S l l') (hp : ¬ A p.1) (hknown : S p.1 ∨ p.1 ∈ l.map Prod.fst) :
    Ahead A S l (l' ++ [p]) := by
  induction h with
  | nil => exact .right hp (hknown.resolve_right List.not_mem_nil) .nil
  | left hq _ ih =>
    refine .left hq (ih ?_)
    rwa [List.map_cons, List.mem_cons, ← or_assoc] at hknown
  | right hq hserved _ ih => exact .right hq hserved (ih hknown)
  | @both S q l l' hq _ ih =>
    refine .both hq (ih (hknown.imp_right fun hmem ↦ ?_))
    refine (List.mem_cons.1 hmem).resolve_left fun heq ↦ hp ?_
    rwa [heq]

/-- The first queue is served alone. -/
theorem pop_left (h : Ahead A S (p :: l) l') (hp : ¬ A p.1) :
    Ahead A (fun u ↦ S u ∨ u = p.1) l l' := by
  generalize hq : p :: l = q at h
  induction h with
  | nil => cases hq
  | left _ h _ =>
    cases hq
    exact h
  | right hp' hserved _ ih => exact .right hp' (.inl hserved) (ih hq)
  | both hp' _ _ =>
    cases hq
    exact absurd hp' hp

/-- The second queue is served alone. -/
theorem pop_right (h : Ahead A S l (p :: l')) (hp : ¬ A p.1) : Ahead A S l l' := by
  generalize hq : p :: l' = q at h
  induction h with
  | nil => cases hq
  | left hp' _ ih => exact .left hp' (ih hq)
  | right _ _ h _ =>
    cases hq
    exact h
  | both hp' _ _ =>
    cases hq
    exact absurd hp' hp

/-- Both queues are served. -/
theorem pop_both (h : Ahead A S (p :: l) (p' :: l')) (hp : A p.1) (hp' : A p'.1) :
    p = p' ∧ Ahead A S l l' := by
  cases h with
  | left hnot _ => exact absurd hp hnot
  | right hnot _ _ => exact absurd hp' hnot
  | both _ h => exact ⟨rfl, h⟩

/-- No method in `A` waits alone. -/
theorem not_of_nil_right (h : Ahead A S (p :: l) []) : ¬ A p.1 := by
  cases h with
  | left hp _ => exact hp

theorem not_of_nil_left (h : Ahead A S [] (p' :: l')) : ¬ A p'.1 ∧ S p'.1 := by
  cases h with
  | right hp hserved _ => exact ⟨hp, hserved⟩

/-- Before a method in `A` the second queue has only what has been served on the other side. -/
theorem served_of_mem (h : Ahead A S (p :: l) (p' :: l')) (hp : A p.1) (hp' : ¬ A p'.1) :
    S p'.1 := by
  cases h with
  | left hnot _ => exact absurd hp hnot
  | right _ hserved _ => exact hserved
  | both h _ => exact absurd h hp'

end Ahead

/-! ### One run ahead of another -/

namespace State

/-- The state `st` leads `st'`: the same is seen of the methods in `A`, and of the others nothing is
seen in `st'` that has not been seen in `st`. The methods of `S` have been served in `st`. -/
structure Leads (A S : Nat → Prop) (st st' : State) : Prop where
  notes : ∀ u, A u → st.marking.notes[u]? = st'.marking.notes[u]?
  waiting : Ahead A S st.waiting.toList st'.waiting.toList
  kept : ∀ u, ¬ A u → st'.marking.isOpen u = true → st.marking.isOpen u = false →
    S u ∨ u ∈ st.waiting.toList.map Prod.fst

/-- Serving a method brings a run nearer to its end. -/
theorem weight_serve {st : State} {rest : Worklist (Nat × Remark)} {base : Nat} {r : Remark}
    (hpop : st.waiting.pop? = some ((base, r), rest)) (os : List Nat) :
    (passAll base r os { st with waiting := rest }).value.weight + 1 = st.weight := by
  have hsize := Worklist.size_of_pop? hpop
  rw [weight_passAll, weight, weight]
  dsimp only
  omega

namespace Leads

variable {A S : Nat → Prop} {st st' : State} {base o : Nat} {r : Remark} {os : List Nat}
  {rest rest' : Worklist (Nat × Remark)}

theorem isOpen_eq (h : Leads A S st st') (ho : A o) :
    st.marking.isOpen o = st'.marking.isOpen o := by
  rw [isOpen_eq_notes, isOpen_eq_notes, h.notes o ho]

/-- A warning reaches a method in the first state. It is no open method in `A`. -/
theorem pass_left (h : Leads A S st st') (base : Nat) (r : Remark)
    (ho : A o → st.marking.isOpen o = false) : Leads A S (State.pass base r st o).value st' := by
  obtain ⟨-, hmarking, hwaiting⟩ | ⟨hopen, hmarking, hwaiting⟩ := pass_cases base r st o
  · exact ⟨by rw [hmarking]; exact h.notes, by rw [hwaiting]; exact h.waiting,
      by rw [hmarking, hwaiting]; exact h.kept⟩
  · have hout : ¬ A o := fun hA ↦ Bool.false_ne_true ((ho hA).symm.trans hopen)
    refine ⟨fun u hu ↦ ?_, ?_, fun u hu hopen' hclosed ↦ ?_⟩
    · have hne : o ≠ u := by
        rintro rfl
        exact hout hu
      rw [hmarking, notes_put, Array.getElem?_modify, if_neg hne, h.notes u hu]
    · rw [hwaiting, Worklist.toList_push]
      exact h.waiting.push_left hout
    · rw [hwaiting, Worklist.toList_push, List.map_append, List.mem_append]
      rw [hmarking, isOpen_put_warn, Bool.and_eq_false_iff] at hclosed
      rcases hclosed with hclosed | heq
      · exact (h.kept u hu hopen' hclosed).imp_right .inl
      · obtain rfl : o = u := by simpa using heq
        exact .inr (.inr List.mem_cons_self)

/-- A warning reaches a method in the second state. It has been closed in the first one. -/
theorem pass_right (h : Leads A S st st') (base : Nat) (r : Remark)
    (ho : st.marking.isOpen o = false) : Leads A S st (State.pass base r st' o).value := by
  obtain ⟨-, hmarking, hwaiting⟩ | ⟨hopen, hmarking, hwaiting⟩ := pass_cases base r st' o
  · exact ⟨by rw [hmarking]; exact h.notes, by rw [hwaiting]; exact h.waiting,
      by rw [hmarking]; exact h.kept⟩
  · have hout : ¬ A o := fun hA ↦ by cases (ho.symm.trans (h.isOpen_eq hA)).trans hopen
    refine ⟨fun u hu ↦ ?_, ?_, fun u hu hopen' hclosed ↦ ?_⟩
    · have hne : o ≠ u := by
        rintro rfl
        exact hout hu
      rw [hmarking, notes_put, Array.getElem?_modify, if_neg hne, h.notes u hu]
    · rw [hwaiting, Worklist.toList_push]
      exact h.waiting.push_right hout (h.kept o hout hopen ho)
    · rw [hmarking, isOpen_put_warn, Bool.and_eq_true] at hopen'
      exact h.kept u hu hopen'.1 hclosed

/-- A warning reaches the same method in both states. -/
theorem pass_both (h : Leads A S st st') (base : Nat) (r : Remark) (o : Nat) :
    Leads A S (State.pass base r st o).value (State.pass base r st' o).value := by
  by_cases ho : A o
  · obtain ⟨hclosed, -, -⟩ | ⟨hopen, hmarking, hwaiting⟩ := pass_cases base r st o
    · exact (h.pass_left base r fun _ ↦ hclosed).pass_right base r (isOpen_pass_self base r st o)
    · obtain ⟨hclosed', -, -⟩ | ⟨-, hmarking', hwaiting'⟩ := pass_cases base r st' o
      · cases (hopen.symm.trans (h.isOpen_eq ho)).trans hclosed'
      · refine ⟨fun u hu ↦ ?_, ?_, fun u hu hopen' hclosed ↦ ?_⟩
        · rw [hmarking, hmarking', notes_put, notes_put, Array.getElem?_modify,
            Array.getElem?_modify, h.notes u hu]
        · rw [hwaiting, hwaiting', Worklist.toList_push, Worklist.toList_push]
          exact h.waiting.push_both ho
        · have hne : ¬ o = u := by
            rintro rfl
            exact hu ho
          rw [hmarking', isOpen_put_warn, Bool.and_eq_true] at hopen'
          rw [hmarking, isOpen_put_warn, decide_eq_false hne, Bool.not_false, Bool.and_true]
            at hclosed
          rw [hwaiting, Worklist.toList_push, List.map_append, List.mem_append]
          exact (h.kept u hu hopen'.1 hclosed).imp_right .inl
  · -- outside `A` the first state goes ahead
    exact (h.pass_left base r fun hA ↦ absurd hA ho).pass_right base r
      (isOpen_pass_self base r st o)

theorem passAll_left (h : Leads A S st st') (base : Nat) (r : Remark)
    (hos : ∀ o ∈ os, A o → st.marking.isOpen o = false) :
    Leads A S (State.passAll base r os st).value st' := by
  induction os generalizing st with
  | nil => exact h
  | cons o os ih =>
    rw [passAll_cons]
    refine ih (h.pass_left base r (hos o List.mem_cons_self)) fun o' ho' hA ↦ ?_
    exact isOpen_pass_of_closed base r o (hos o' (List.mem_cons_of_mem o ho') hA)

theorem passAll_right (h : Leads A S st st') (base : Nat) (r : Remark)
    (hos : ∀ o ∈ os, st.marking.isOpen o = false) :
    Leads A S st (State.passAll base r os st').value := by
  induction os generalizing st' with
  | nil => exact h
  | cons o os ih =>
    rw [passAll_cons]
    exact ih (h.pass_right base r (hos o List.mem_cons_self)) fun o' ho' ↦
      hos o' (List.mem_cons_of_mem o ho')

theorem passAll_both (h : Leads A S st st') (base : Nat) (r : Remark) (os : List Nat) :
    Leads A S (State.passAll base r os st).value (State.passAll base r os st').value := by
  induction os generalizing st st' with
  | nil => exact h
  | cons o os ih =>
    rw [passAll_cons, passAll_cons]
    exact ih (h.pass_both base r o)

/-- The first state serves a method outside `A`, which finds no open method in `A`. -/
theorem serve_left (h : Leads A S st st') (hpop : st.waiting.pop? = some ((base, r), rest))
    (hbase : ¬ A base) (hos : ∀ o ∈ os, A o → st.marking.isOpen o = false) :
    Leads A (fun u ↦ S u ∨ u = base) (State.passAll base r os { st with waiting := rest }).value
      st' := by
  have hwaiting := Worklist.toList_of_pop? hpop
  have hpopped : Leads A (fun u ↦ S u ∨ u = base) { st with waiting := rest } st' := by
    refine ⟨h.notes, Ahead.pop_left (p := (base, r)) (hwaiting ▸ h.waiting) hbase, ?_⟩
    intro u hu hopen hclosed
    have hkept := h.kept u hu hopen hclosed
    rwa [hwaiting, List.map_cons, List.mem_cons, ← or_assoc] at hkept
  exact hpopped.passAll_left base r hos

/-- The second state serves a method outside `A` that has been served in the first one. -/
theorem serve_right (h : Leads A S st st') (hpop : st'.waiting.pop? = some ((base, r), rest))
    (hbase : ¬ A base) (hos : ∀ o ∈ os, st.marking.isOpen o = false) :
    Leads A S st (State.passAll base r os { st' with waiting := rest }).value := by
  have hwaiting := Worklist.toList_of_pop? hpop
  have hpopped : Leads A S st { st' with waiting := rest } :=
    ⟨h.notes, Ahead.pop_right (p := (base, r)) (hwaiting ▸ h.waiting) hbase, h.kept⟩
  exact hpopped.passAll_right base r hos

/-- Both states serve a method in `A`, which is the same one. -/
theorem serve_both (h : Leads A S st st') (hpop : st.waiting.pop? = some ((base, r), rest))
    (hpop' : st'.waiting.pop? = some ((base, r), rest')) (hbase : A base) (os : List Nat) :
    Leads A S (State.passAll base r os { st with waiting := rest }).value
      (State.passAll base r os { st' with waiting := rest' }).value := by
  have hwaiting := Worklist.toList_of_pop? hpop
  have hahead := h.waiting
  rw [hwaiting, Worklist.toList_of_pop? hpop'] at hahead
  have hpopped : Leads A S { st with waiting := rest } { st' with waiting := rest' } := by
    refine ⟨h.notes, (hahead.pop_both hbase hbase).2, fun u hu hopen hclosed ↦
      (h.kept u hu hopen hclosed).imp_right fun hmem ↦ ?_⟩
    rw [hwaiting, List.map_cons] at hmem
    refine (List.mem_cons.1 hmem).resolve_left ?_
    rintro rfl
    exact hu hbase
  exact hpopped.passAll_both base r os

/-- **What is served next**: nothing any more, a method outside `A` in the first state, one in the
second that has been served in the first, or the same method in `A` in both. -/
theorem pop_cases (h : Leads A S st st') :
    (st.waiting.pop? = none ∧ st'.waiting.pop? = none) ∨
    (∃ base r rest, st.waiting.pop? = some ((base, r), rest) ∧ ¬ A base) ∨
    (∃ base r rest, st'.waiting.pop? = some ((base, r), rest) ∧ ¬ A base ∧ S base) ∨
    ∃ base r rest rest', st.waiting.pop? = some ((base, r), rest) ∧
      st'.waiting.pop? = some ((base, r), rest') ∧ A base := by
  have hahead := h.waiting
  cases hpop : st.waiting.pop? with
  | none =>
    rw [Worklist.toList_of_pop?_none hpop] at hahead
    cases hpop' : st'.waiting.pop? with
    | none => exact .inl ⟨rfl, rfl⟩
    | some q' =>
      rw [Worklist.toList_of_pop? hpop'] at hahead
      exact .inr (.inr (.inl ⟨_, _, _, rfl, hahead.not_of_nil_left⟩))
  | some q =>
    rw [Worklist.toList_of_pop? hpop] at hahead
    by_cases hbase : A q.1.1
    · cases hpop' : st'.waiting.pop? with
      | none =>
        rw [Worklist.toList_of_pop?_none hpop'] at hahead
        exact absurd hbase hahead.not_of_nil_right
      | some q' =>
        rw [Worklist.toList_of_pop? hpop'] at hahead
        by_cases hbase' : A q'.1.1
        · have heq := (hahead.pop_both hbase hbase').1
          exact .inr (.inr (.inr
            ⟨_, _, _, q'.2, rfl, congrArg (fun p ↦ some (p, q'.2)) heq.symm, hbase⟩))
        · exact .inr (.inr (.inl ⟨_, _, _, rfl, hbase', hahead.served_of_mem hbase hbase'⟩))
    · exact .inr (.inl ⟨_, _, _, rfl, hbase⟩)

end Leads

end State

section Inherit

variable {A S : Nat → Prop} {m m' : Marking} {pairs : List (Nat × Nat)} {isVirtual : Array Bool}
  {st st' : State} {u : Nat}

/-- **A run on `A` is not affected by what goes on outside**, if `A` holds with a method also the
one that hands it its warning. -/
theorem State.Leads.notes_run (hA : ∀ base o, A o → m.Hands pairs isVirtual base o → A base)
    (hreach : Relation.ReflTransGen (State.Serves (.ofNumbers pairs)) (start m isVirtual) st)
    (hserved : ∀ base o, S base → (base, o) ∈ pairs → st.marking.isOpen o = false)
    (h : State.Leads A S st st') (hu : A u) :
    (st.run (.ofNumbers pairs)).value.marking.notes[u]? =
      (st'.run (.ofNumbers pairs)).value.marking.notes[u]? := by
  -- each round serves a method in the first state, in the second one, or the same one in both
  induction hn : st.weight + st'.weight using Nat.strong_induction_on generalizing S st st' with
  | _ n ih =>
    -- what has been served in the first state stays served
    have hkeep : ∀ base r rest c o, S c → (c, o) ∈ pairs →
        (State.passAll base r ((Overrides.ofNumbers pairs).of base)
          { st with waiting := rest }).value.marking.isOpen o = false :=
      fun base r rest c o hc hpair ↦ State.isOpen_passAll_of_closed base r _ (hserved c o hc hpair)
    obtain ⟨hpop, hpop'⟩ | ⟨base, r, rest, hpop, hbase⟩ | ⟨base, r, rest, hpop', hbase, hS⟩ |
      ⟨base, r, rest, rest', hpop, hpop', hbase⟩ := h.pop_cases
    · rw [State.value_run_of_pop?_eq_none hpop, State.value_run_of_pop?_eq_none hpop']
      exact h.notes u hu
    · have hweight := State.weight_serve hpop ((Overrides.ofNumbers pairs).of base)
      rw [State.value_run_of_pop?_eq_some hpop]
      refine ih _ (by omega) (hreach.tail (.serve hpop)) ?_
        (h.serve_left hpop hbase fun o ho hAo ↦ ?_) rfl
      · rintro c o (hc | rfl) hpair
        · exact hkeep base r rest c o hc hpair
        · exact State.isOpen_passAll_of_mem c r _ (Overrides.mem_of_ofNumbers.2 hpair)
      · -- an open method in `A` would be handed the warning
        refine Bool.eq_false_iff.2 fun hopen ↦ hbase ?_
        exact hA base o hAo ⟨st, r, rest, hreach, hpop, Overrides.mem_of_ofNumbers.1 ho, hopen⟩
    · have hweight := State.weight_serve hpop' ((Overrides.ofNumbers pairs).of base)
      rw [State.value_run_of_pop?_eq_some hpop']
      exact ih _ (by omega) hreach hserved (h.serve_right hpop' hbase fun o ho ↦
        hserved base o hS (Overrides.mem_of_ofNumbers.1 ho)) rfl
    · have hweight := State.weight_serve hpop ((Overrides.ofNumbers pairs).of base)
      have hweight' := State.weight_serve hpop' ((Overrides.ofNumbers pairs).of base)
      rw [State.value_run_of_pop?_eq_some hpop, State.value_run_of_pop?_eq_some hpop']
      exact ih _ (by omega) (hreach.tail (.serve hpop)) (hkeep base r rest)
        (h.serve_both hpop hpop' hbase _) rfl

/-- Markings that pass on the same warnings start from the same queue. -/
theorem virtualWarnings_eq
    (h : ∀ r b, m.Issues isVirtual r b ↔ m'.Issues isVirtual r b) :
    m.virtualWarnings isVirtual = m'.virtualWarnings isVirtual := by
  have hnodup := fun m : Marking ↦ (m.pairwise_virtualWarnings isVirtual).imp
    fun hlt heq ↦ Nat.ne_of_lt hlt (congrArg Prod.fst heq)
  have hperm : (m.virtualWarnings isVirtual).Perm (m'.virtualWarnings isVirtual) := by
    refine (List.perm_ext_iff_of_nodup (hnodup m) (hnodup m')).2 ?_
    rintro ⟨b, r⟩
    rw [mem_virtualWarnings, mem_virtualWarnings, h]
  exact hperm.eq_of_pairwise (fun p q _ _ hpq hqp ↦ absurd hqp (Nat.lt_asymm hpq))
    (m.pairwise_virtualWarnings isVirtual) (m'.pairwise_virtualWarnings isVirtual)

/-- **What is handed on within `A` is the same for both markings**, if the second one has the same
warnings to pass on, has no more open methods, and shows the same notes on `A`. -/
theorem notes_inherit_of_hands (hA : ∀ base o, A o → m.Hands pairs isVirtual base o → A base)
    (hissues : ∀ r b, m.Issues isVirtual r b ↔ m'.Issues isVirtual r b)
    (hopen : ∀ u, m'.isOpen u = true → m.isOpen u = true)
    (h : ∀ u, A u → m.notes[u]? = m'.notes[u]?) (hu : A u) :
    (m.inherit (.ofNumbers pairs) isVirtual).value.2.notes[u]? =
      (m'.inherit (.ofNumbers pairs) isVirtual).value.2.notes[u]? := by
  have hstart : State.Leads A (fun _ ↦ False) (start m isVirtual) (start m' isVirtual) := by
    refine ⟨h, ?_, fun u _ hopen' hclosed ↦ ?_⟩
    · rw [start, start, virtualWarnings_eq hissues]
      exact .refl A _ _
    · cases (hopen u hopen').symm.trans hclosed
  exact hstart.notes_run hA .refl (fun _ _ hfalse ↦ hfalse.elim) hu

/-- **Inheritance reads nothing but notes.** -/
theorem notes_inherit (h : m.notes = m'.notes) (pairs : List (Nat × Nat)) (isVirtual : Array Bool) :
    (m.inherit (.ofNumbers pairs) isVirtual).value.2.notes =
      (m'.inherit (.ofNumbers pairs) isVirtual).value.2.notes := by
  have hnote : ∀ u, m.note? u = m'.note? u := fun u ↦ by rw [note?_eq_notes, note?_eq_notes, h]
  refine Array.ext_getElem? fun u ↦ notes_inherit_of_hands (A := fun _ ↦ True)
    (fun _ _ _ _ ↦ trivial) (fun r b ↦ ?_) (fun u hu ↦ ?_) (fun _ _ ↦ by rw [h]) trivial
  · exact ⟨fun hb ↦ ⟨hnote b ▸ hb.note?, hb.isVirtual⟩,
      fun hb ↦ ⟨(hnote b).symm ▸ hb.note?, hb.isVirtual⟩⟩
  · rwa [isOpen_eq_notes, h, ← isOpen_eq_notes]

end Inherit

end Inheritance

/-! ### Suppressions put on open methods -/

namespace Marking

variable {m m' : Marking} {r r' : Remark} {pairs : List (Nat × Nat)} {isVirtual : Array Bool}
  {b k u : Nat}

/-- `m'` is `m` with a suppression put on some methods that were open. -/
def Adds (r : Remark) (m m' : Marking) : Prop :=
  ∀ u, m'.marks[u]? = m.marks[u]? ∨ m.isOpen u = true ∧ m'.note? u = some (.suppress r)

namespace Adds

/-- A suppression opens no method. -/
theorem isOpen (h : Adds r m m') (hu : m'.isOpen u = true) : m.isOpen u = true := by
  rcases h u with hsame | ⟨hopen, -⟩
  · rwa [Marking.isOpen, hsame] at hu
  · exact hopen

theorem issues (h : Adds r m m') (hb : m'.Issues isVirtual r' b) : m.Issues isVirtual r' b := by
  rcases h b with hsame | ⟨-, hnote⟩
  · refine ⟨?_, hb.isVirtual⟩
    have hwarn := hb.note?
    rwa [note?, hsame] at hwarn
  · cases hnote.symm.trans hb.note?

/-- The suppression is put on no method that has a warning to pass on. -/
theorem issues_iff (h : Adds r m m') : m.Issues isVirtual r' b ↔ m'.Issues isVirtual r' b := by
  refine ⟨fun hb ↦ ?_, h.issues⟩
  rcases h b with hsame | ⟨hopen, -⟩
  · refine ⟨?_, hb.isVirtual⟩
    rw [note?, hsame]
    exact hb.note?
  · cases hb.isOpen_eq_false.symm.trans hopen

theorem descends (h : Adds r m m') (hline : m'.Descends pairs b k u) : m.Descends pairs b k u := by
  induction hline with
  | refl => exact .refl
  | step _ hpair hopen ih => exact ih.step hpair (h.isOpen hopen)

/-- What comes down in spite of the suppression comes down without it. -/
theorem inherits (h : Adds r m m') (hu : m'.Inherits pairs isVirtual r' k u) :
    m.Inherits pairs isVirtual r' k u := by
  obtain ⟨b, hb, hline⟩ := hu
  exact ⟨b, h.issues hb, h.descends hline⟩

end Adds

end Marking

namespace Inheritance

open Marking

/-- A configured note is kept. -/
theorem Settled.note?_eq_of_configured {m m' : Marking} {pairs : List (Nat × Nat)}
    {isVirtual : Array Bool} {a : Note} {o : Nat} (h : Settled m pairs isVirtual m')
    (ho : m.note? o = some a) (ha : a.isConfigured = true) : m'.note? o = some a := by
  rcases h.marks o with hsame | ⟨r, k, htook⟩
  · rwa [note?, hsame]
  · cases htook.isOpen.symm.trans (isOpen_eq_false_of_note? ho ha)

/-- **A suppression elsewhere leaves the note of a method alone.** It is put neither on the method
nor on one through which its warning has come. -/
theorem note?_inherit_eq_of_adds {m m' : Marking} {r : Remark} (h : Adds r m m')
    {pairs : List (Nat × Nat)} {isVirtual : Array Bool} {u : Nat}
    (hline : ∀ b, Relation.ReflTransGen (m.Hands pairs isVirtual) b u →
      m'.marks[b]? = m.marks[b]?) :
    (m'.inherit (.ofNumbers pairs) isVirtual).value.2.note? u =
      (m.inherit (.ofNumbers pairs) isVirtual).value.2.note? u := by
  rw [note?_eq_notes, note?_eq_notes]
  refine congrArg Option.join (notes_inherit_of_hands
    (A := fun b ↦ Relation.ReflTransGen (m.Hands pairs isVirtual) b u)
    (fun base o ho hhands ↦ .head hhands ho) (fun _ _ ↦ h.issues_iff) (fun _ ↦ h.isOpen)
    (fun b hb ↦ ?_) .refl).symm
  rw [getElem?_notes, getElem?_notes, hline b hb]

/-- **A suppression makes no other method annotated.** What has a note afterwards carries the
suppression, or has a note also without it. -/
theorem note?_inherit_of_adds {m m' : Marking} {r : Remark} (h : Adds r m m')
    (pairs : List (Nat × Nat)) (isVirtual : Array Bool) {u : Nat}
    (hu : ((m'.inherit (.ofNumbers pairs) isVirtual).value.2.note? u).isSome = true) :
    (m'.inherit (.ofNumbers pairs) isVirtual).value.2.note? u = some (.suppress r) ∨
      ((m.inherit (.ofNumbers pairs) isVirtual).value.2.note? u).isSome = true := by
  have hsettled := settled_inherit m pairs isVirtual
  rcases (settled_inherit m' pairs isVirtual).marks u with hkept | ⟨r', k, htook⟩
  · rw [note?, hkept, ← note?] at hu ⊢
    rcases h u with hsame | ⟨-, hnote⟩
    · -- the method has its own note in both
      right
      rcases hsettled.marks u with hkept' | ⟨r', k, htook⟩
      · rwa [note?, hkept', ← hsame]
      · rw [htook.note?]
        rfl
    · exact .inl hnote
  · right
    obtain ⟨r'', k', htook'⟩ :=
      hsettled.exists_took htook.one_le (h.inherits htook.nearest.inherits)
    rw [htook'.note?]
    rfl

end Inheritance

end HazardTrace

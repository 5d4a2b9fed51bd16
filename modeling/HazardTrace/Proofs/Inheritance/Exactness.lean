import HazardTrace.Proofs.Inheritance.Descent
import Mathlib.Order.Bounds.Basic

/-!
# What is inherited

Inheritance serves its methods in the order of arrival, so it works in levels: while the methods at
`d` steps from where their warnings started are served (`now`), those at `d + 1` steps gather behind
them (`next`). `Level` is what holds meanwhile. Its point is `closed`: whatever a warning reaches in
at most `d` steps is closed already, so a method that is still open takes a warning from `d + 1`
steps away and could not have had a nearer one.

`Level.pass` is the step of one override, and rests on `State.pass_cases`, which says what one
override can do. `Proceeds.serve` is the step of one method that is served: its overrides join the
next level, and none of them is open afterwards (`State.isOpen_passAll_of_mem`). The level ends when
`now` is empty (`Level.advance`), and the run when `next` is empty as well; then every later level
has ended too, and the bound on the steps falls away (`Settled`).

* `settled_inherit`: what is left by the run, for every marking, all pairs and all virtual methods.
  Pairs that lead round in a circle, or from a method to itself, are no exception, because a level
  takes only open methods. All that is said of inheritance elsewhere is derived from this lemma.
* `inherit_exact` is the same in terms of notes: which are kept, which methods carry a warning, and
  from how far it has come. It says no more than that the warning is one of the nearest. Of several
  at the same distance the first is taken, which depends on the order of the overrides.
-/

namespace HazardTrace

namespace Inheritance

open Marking

/-! ### One override -/

namespace State

variable {st : State} {o x : Nat}

/-- A method that is not open stays as it is. An open one takes the warning, and waits to pass it
on. -/
theorem pass_cases (base : Nat) (r : Remark) (st : State) (o : Nat) :
    (st.marking.isOpen o = false ∧ (pass base r st o).value.marking = st.marking ∧
      (pass base r st o).value.waiting = st.waiting) ∨
    (st.marking.isOpen o = true ∧ (pass base r st o).value.marking = st.marking.put o (.warn r) ∧
      (pass base r st o).value.waiting = st.waiting.push (o, r)) := by
  rw [pass]
  split
  next hnone => exact .inl ⟨by simp [isOpen, hnone], rfl, rfl⟩
  next mark hmark =>
    have hopen : st.marking.isOpen o = mark.isOpen := by simp [isOpen, hmark]
    rw [hopen]
    split
    next hnote => exact .inr ⟨by simp [Mark.isOpen, hnote], rfl, rfl⟩
    next calls hnote =>
      exact .inr ⟨by simp [Mark.isOpen, hnote, Note.isConfigured, Note.isUnanalyzed], rfl, rfl⟩
    next existing hother hnote =>
      have hconfigured : existing.isConfigured = true := by
        cases existing with
        | unanalyzed calls => exact absurd rfl (hother calls)
        | warn r | suppress r => rfl
      exact .inl ⟨by simp [Mark.isOpen, hnote, hconfigured], rfl, rfl⟩

/-- No method opens again. -/
theorem isOpen_pass_of_closed (base : Nat) (r : Remark) (o : Nat)
    (h : st.marking.isOpen x = false) : (pass base r st o).value.marking.isOpen x = false := by
  obtain ⟨-, hmarking, -⟩ | ⟨-, hmarking, -⟩ := pass_cases base r st o
  · rw [hmarking, h]
  · rw [hmarking, isOpen_put_warn, h, Bool.false_and]

/-- A warning leaves no open method behind. -/
theorem isOpen_pass_self (base : Nat) (r : Remark) (st : State) (o : Nat) :
    (pass base r st o).value.marking.isOpen o = false := by
  obtain ⟨hclosed, hmarking, -⟩ | ⟨-, hmarking, -⟩ := pass_cases base r st o
  · rw [hmarking, hclosed]
  · rw [hmarking, isOpen_put_warn]
    simp

theorem passAll_cons (base : Nat) (r : Remark) (o : Nat) (os : List Nat) (st : State) :
    (passAll base r (o :: os) st).value =
      (passAll base r os (pass base r st o).value).value := by
  simp only [passAll, List.foldlM_cons, Logged.value_bind]

theorem isOpen_passAll_of_closed (base : Nat) (r : Remark) (os : List Nat)
    (h : st.marking.isOpen x = false) :
    (passAll base r os st).value.marking.isOpen x = false := by
  induction os generalizing st with
  | nil => exact h
  | cons o os ih =>
    rw [passAll_cons]
    exact ih (isOpen_pass_of_closed base r o h)

/-- No override of a method that has been served is open. -/
theorem isOpen_passAll_of_mem (base : Nat) (r : Remark) {os : List Nat} (st : State)
    (h : x ∈ os) : (passAll base r os st).value.marking.isOpen x = false := by
  induction os generalizing st with
  | nil => cases h
  | cons o os ih =>
    rw [passAll_cons]
    rcases List.mem_cons.1 h with rfl | h
    · exact isOpen_passAll_of_closed base r os (isOpen_pass_self base r st x)
    · exact ih _ h

end State

/-! ### Levels -/

/-- `o` was open and has taken the warning `r`, from `k` steps away and no nearer one. -/
structure Took (m : Marking) (pairs : List (Nat × Nat)) (isVirtual : Array Bool) (m' : Marking)
    (r : Remark) (k o : Nat) : Prop where
  isOpen : m.isOpen o = true
  mark : m'.marks[o]? = m.marks[o]?.map fun mark ↦ { mark with note := some (.warn r) }
  nearest : m.Nearest pairs isVirtual r k o

/-- The marking `m'` while the methods `now`, at `d` steps, are still to be served. The methods
`next`, at one step more, have been found meanwhile. -/
structure Level (m : Marking) (pairs : List (Nat × Nat)) (isVirtual : Array Bool) (d : Nat)
    (now next : List (Nat × Remark)) (m' : Marking) : Prop where
  inherits_now : ∀ p ∈ now, m.Inherits pairs isVirtual p.2 d p.1
  inherits_next : ∀ p ∈ next, m.Inherits pairs isVirtual p.2 (d + 1) p.1
  marks : ∀ o, m'.marks[o]? = m.marks[o]? ∨
    ∃ r k, Took m pairs isVirtual m' r k o ∧ (k ≤ d ∨ (o, r) ∈ next)
  closed : ∀ r k o, m.Inherits pairs isVirtual r k o → k ≤ d → m'.isOpen o = false
  served : ∀ r k c, m.Inherits pairs isVirtual r k c → k ≤ d →
    c ∈ now.map Prod.fst ∨ ∀ o, (c, o) ∈ pairs → m'.isOpen o = false

variable {m m' : Marking} {pairs : List (Nat × Nat)} {isVirtual : Array Bool}
  {now next : List (Nat × Remark)} {r : Remark} {base d k o : Nat}

theorem Took.note? (h : Took m pairs isVirtual m' r k o) : m'.note? o = some (.warn r) := by
  obtain ⟨mark, hmark, -⟩ := (Option.any_eq_true _ _).1 h.isOpen
  simp [Marking.note?, h.mark, hmark]

theorem Took.isOpen_eq_false (h : Took m pairs isVirtual m' r k o) : m'.isOpen o = false :=
  isOpen_eq_false_of_note? h.note? rfl

/-- A method that takes a warning is not the one where it started. -/
theorem Took.one_le (h : Took m pairs isVirtual m' r k o) : 1 ≤ k := by
  rcases k with _ | k
  · have hclosed := h.nearest.inherits.issues.isOpen_eq_false
    rw [h.isOpen] at hclosed
    cases hclosed
  · omega

/-- At first the methods with a warning of their own wait, at no steps. -/
theorem level_start (m : Marking) (pairs : List (Nat × Nat)) (isVirtual : Array Bool) :
    Level m pairs isVirtual 0 (m.virtualWarnings isVirtual) [] m where
  inherits_now p hp := (mem_virtualWarnings.1 hp).inherits
  inherits_next p hp := nomatch hp
  marks o := .inl rfl
  closed r k o h hk := by
    obtain rfl : k = 0 := by omega
    exact h.issues.isOpen_eq_false
  served r k c h hk := by
    obtain rfl : k = 0 := by omega
    exact .inl (List.mem_map.2 ⟨(c, r), mem_virtualWarnings.2 h.issues, rfl⟩)

/-- An open method takes the warning that reaches it: from further up it would have been closed
before. -/
theorem Level.take (h : Level m pairs isVirtual d now next m')
    (hbase : m.Inherits pairs isVirtual r d base) (hpair : (base, o) ∈ pairs)
    (hopen : m'.isOpen o = true) :
    Level m pairs isVirtual d now (next ++ [(o, r)]) (m'.put o (.warn r)) := by
  have hfirst : m'.marks[o]? = m.marks[o]? := by
    rcases h.marks o with hsame | ⟨r', k, htook, -⟩
    · exact hsame
    · rw [htook.isOpen_eq_false] at hopen
      cases hopen
  have hopen₀ : m.isOpen o = true := by
    rwa [isOpen, hfirst] at hopen
  have hinherits := hbase.step hpair hopen₀
  have hnearest : m.Nearest pairs isVirtual r (d + 1) o := by
    refine ⟨hinherits, fun r' k' h' ↦ ?_⟩
    by_contra hlt
    have hclosed := h.closed r' k' o h' (by omega)
    rw [hclosed] at hopen
    cases hopen
  have hkeep : ∀ x, m'.isOpen x = false → (m'.put o (.warn r)).isOpen x = false := by
    intro x hx
    rw [isOpen_put_warn, hx, Bool.false_and]
  refine ⟨h.inherits_now, ?_, ?_, ?_, ?_⟩
  · intro p hp
    rcases List.mem_append.1 hp with hp | hp
    · exact h.inherits_next p hp
    · obtain rfl := List.mem_singleton.1 hp
      exact hinherits
  · intro x
    by_cases hx : o = x
    · subst hx
      refine .inr ⟨r, d + 1, ⟨hopen₀, ?_, hnearest⟩, .inr (by simp)⟩
      rw [getElem?_put, if_pos rfl, hfirst]
    · have hmark : (m'.put o (.warn r)).marks[x]? = m'.marks[x]? := by
        rw [getElem?_put, if_neg hx]
      rcases h.marks x with hsame | ⟨r', k, htook, hk⟩
      · exact .inl (hmark.trans hsame)
      · exact .inr ⟨r', k, ⟨htook.isOpen, hmark.trans htook.mark, htook.nearest⟩,
          hk.imp_right (List.mem_append_left _)⟩
  · intro r' k x hx hk
    exact hkeep x (h.closed r' k x hx hk)
  · intro r' k c hc hk
    exact (h.served r' k c hc hk).imp_right fun hall x hx ↦ hkeep x (hall x hx)

/-- What one override adds to the waiting methods, it adds to the next level. -/
theorem Level.pass {st : State} (h : Level m pairs isVirtual d now next st.marking)
    (hbase : m.Inherits pairs isVirtual r d base) (hpair : (base, o) ∈ pairs) :
    ∃ new, (State.pass base r st o).value.waiting.toList = st.waiting.toList ++ new ∧
      Level m pairs isVirtual d now (next ++ new) (State.pass base r st o).value.marking := by
  obtain ⟨-, hmarking, hwaiting⟩ | ⟨hopen, hmarking, hwaiting⟩ := State.pass_cases base r st o
  · refine ⟨[], ?_, ?_⟩
    · rw [hwaiting, List.append_nil]
    · rwa [hmarking, List.append_nil]
  · refine ⟨[(o, r)], ?_, ?_⟩
    · rw [hwaiting, Worklist.toList_push]
    · rw [hmarking]
      exact h.take hbase hpair hopen

/-- All overrides of one base. -/
theorem Level.passAll {st : State} {os : List Nat}
    (h : Level m pairs isVirtual d now next st.marking)
    (hbase : m.Inherits pairs isVirtual r d base) (hpairs : ∀ o ∈ os, (base, o) ∈ pairs) :
    ∃ new, (State.passAll base r os st).value.waiting.toList = st.waiting.toList ++ new ∧
      Level m pairs isVirtual d now (next ++ new)
        (State.passAll base r os st).value.marking := by
  induction os generalizing st next with
  | nil =>
    refine ⟨[], (List.append_nil _).symm, ?_⟩
    rwa [List.append_nil]
  | cons o os ih =>
    obtain ⟨new, hwaiting, hlevel⟩ := h.pass hbase (hpairs o List.mem_cons_self)
    obtain ⟨new', hwaiting', hlevel'⟩ :=
      ih hlevel fun o' ho' ↦ hpairs o' (List.mem_cons_of_mem _ ho')
    refine ⟨new ++ new', ?_, ?_⟩
    · rw [State.passAll_cons, hwaiting', hwaiting, List.append_assoc]
    · rwa [State.passAll_cons, ← List.append_assoc]

/-- A method has been served when none of its overrides is open. -/
theorem Level.tail (h : Level m pairs isVirtual d ((base, r) :: now) next m')
    (hserved : ∀ o, (base, o) ∈ pairs → m'.isOpen o = false) :
    Level m pairs isVirtual d now next m' where
  inherits_now p hp := h.inherits_now p (List.mem_cons_of_mem _ hp)
  inherits_next := h.inherits_next
  marks := h.marks
  closed := h.closed
  served r' k c hc hk := by
    rcases h.served r' k c hc hk with hmem | hall
    · rcases List.mem_cons.1 hmem with rfl | hmem
      · exact .inr hserved
      · exact .inl hmem
    · exact .inr hall

/-- When a level has been served, the next one begins. -/
theorem Level.advance (h : Level m pairs isVirtual d [] next m') :
    Level m pairs isVirtual (d + 1) next [] m' := by
  have hserved : ∀ r k c, m.Inherits pairs isVirtual r k c → k ≤ d →
      ∀ o, (c, o) ∈ pairs → m'.isOpen o = false := by
    intro r k c hc hk
    exact (h.served r k c hc hk).resolve_left (by simp)
  have hclosed : ∀ r k o, m.Inherits pairs isVirtual r k o → k ≤ d + 1 → m'.isOpen o = false := by
    intro r k o ho hk
    rcases Nat.lt_or_ge d k with hlt | hle
    · obtain rfl : k = d + 1 := by omega
      obtain ⟨c, hc, hpair, -⟩ := ho.exists_base
      exact hserved r d c hc (le_refl d) o hpair
    · exact h.closed r k o ho hle
  refine ⟨h.inherits_next, by simp, ?_, hclosed, ?_⟩
  · intro o
    refine (h.marks o).imp_right ?_
    rintro ⟨r, k, htook, hk⟩
    refine ⟨r, k, htook, .inl ?_⟩
    rcases hk with hk | hmem
    · omega
    · exact htook.nearest.le r (d + 1) (h.inherits_next _ hmem)
  · intro r k c hc hk
    rcases Nat.lt_or_ge d k with hlt | hle
    · -- a method of the new level was open, so it has taken a warning since
      obtain rfl : k = d + 1 := by omega
      obtain ⟨-, -, -, hopen⟩ := hc.exists_base
      rcases h.marks c with hsame | ⟨r', k', htook, hk' | hmem⟩
      · have hopen' : m'.isOpen c = true := by rwa [isOpen, hsame]
        rw [hclosed r (d + 1) c hc hk] at hopen'
        cases hopen'
      · exact .inr (hserved r' k' c htook.nearest.inherits hk')
      · exact .inl (List.mem_map.2 ⟨(c, r'), hmem, rfl⟩)
    · exact .inr (hserved r k c hc hle)

/-- Whatever is served next belongs to the level at hand, or to the next one if that is done. -/
theorem Level.front {p : Nat × Remark} {l : List (Nat × Remark)}
    (h : Level m pairs isVirtual d now next m') (hl : now ++ next = p :: l) :
    ∃ d' now' next', Level m pairs isVirtual d' (p :: now') next' m' ∧ l = now' ++ next' := by
  rcases now with _ | ⟨q, now⟩
  · obtain rfl : next = p :: l := hl
    exact ⟨d + 1, l, [], h.advance, (List.append_nil l).symm⟩
  · obtain ⟨rfl, rfl⟩ := List.cons.inj hl
    exact ⟨d, now, next, h, rfl⟩

/-! ### Whole runs -/

theorem State.value_run_of_pop?_eq_none {overrides : Overrides} {st : State}
    (h : st.waiting.pop? = none) : (st.run overrides).value = st := by
  rw [State.run]
  split
  · rfl
  next h' =>
    rw [h] at h'
    cases h'

/-- A run serves the next method and goes on. -/
theorem State.value_run_of_pop?_eq_some {overrides : Overrides} {st : State}
    {rest : Worklist (Nat × Remark)} (h : st.waiting.pop? = some ((base, r), rest)) :
    (st.run overrides).value =
      ((State.passAll base r (overrides.of base) { st with waiting := rest }).value.run
        overrides).value := by
  rw [State.run]
  split
  next h' =>
    rw [h] at h'
    cases h'
  next h' =>
    rw [h] at h'
    cases h'
    rfl

/-- What holds before a run, and is kept by each method that is served, holds after; and then no
method waits. -/
theorem State.run_induction (overrides : Overrides) {P : State → Prop} {st : State} (hst : P st)
    (step : ∀ st base r rest, P st → st.waiting.pop? = some ((base, r), rest) →
      P (State.passAll base r (overrides.of base) { st with waiting := rest }).value) :
    P (st.run overrides).value ∧ (st.run overrides).value.waiting.toList = [] := by
  revert hst
  refine State.run.induct overrides
    (fun st ↦ P st → P (st.run overrides).value ∧ (st.run overrides).value.waiting.toList = [])
    (fun st hpop hst ↦ ?_) (fun st base r rest hpop ih hst ↦ ?_) st
  · rw [State.value_run_of_pop?_eq_none hpop]
    exact ⟨hst, Worklist.toList_of_pop?_none hpop⟩
  · rw [State.value_run_of_pop?_eq_some hpop]
    exact ih (step st base r rest hst hpop)

/-- A run is within some level, and the methods that wait are those still to be served. -/
def Proceeds (m : Marking) (pairs : List (Nat × Nat)) (isVirtual : Array Bool) (st : State) : Prop :=
  ∃ d now next, Level m pairs isVirtual d now next st.marking ∧ st.waiting.toList = now ++ next

theorem proceeds_start (m : Marking) (pairs : List (Nat × Nat)) (isVirtual : Array Bool) :
    Proceeds m pairs isVirtual
      { marking := m, waiting := .ofList (m.virtualWarnings isVirtual) } :=
  ⟨0, _, [], level_start m pairs isVirtual, by simp⟩

/-- The step of one method that is served. -/
theorem Proceeds.serve {st : State} {rest : Worklist (Nat × Remark)}
    (h : Proceeds m pairs isVirtual st) (hpop : st.waiting.pop? = some ((base, r), rest)) :
    Proceeds m pairs isVirtual
      (State.passAll base r ((Overrides.ofNumbers pairs).of base)
        { st with waiting := rest }).value := by
  obtain ⟨d, now, next, hlevel, hwaiting⟩ := h
  rw [Worklist.toList_of_pop? hpop] at hwaiting
  obtain ⟨d', now', next', hlevel, hrest⟩ := hlevel.front hwaiting.symm
  have hbase := hlevel.inherits_now (base, r) List.mem_cons_self
  have hpopped : Level m pairs isVirtual d' ((base, r) :: now') next'
      ({ st with waiting := rest } : State).marking := hlevel
  obtain ⟨new, hnew, hlevel⟩ := hpopped.passAll hbase fun o ho ↦ Overrides.mem_of_ofNumbers.1 ho
  refine ⟨d', now', next' ++ new, hlevel.tail fun o ho ↦ ?_, ?_⟩
  · exact State.isOpen_passAll_of_mem base r _ (Overrides.mem_of_ofNumbers.2 ho)
  · rw [hnew, hrest, List.append_assoc]

/-- The marking `m'` after inheritance: each mark is as it was, or was open and has taken the
nearest warning; and where a warning has come, no override is open. -/
structure Settled (m : Marking) (pairs : List (Nat × Nat)) (isVirtual : Array Bool)
    (m' : Marking) : Prop where
  marks : ∀ o, m'.marks[o]? = m.marks[o]? ∨ ∃ r k, Took m pairs isVirtual m' r k o
  served : ∀ r k c o, m.Inherits pairs isVirtual r k c → (c, o) ∈ pairs → m'.isOpen o = false

/-- With nothing left to serve, every level is done. -/
theorem Level.settled (h : Level m pairs isVirtual d [] [] m') : Settled m pairs isVirtual m' where
  marks o := by
    refine (h.marks o).imp_right ?_
    rintro ⟨r, k, htook, -⟩
    exact ⟨r, k, htook⟩
  served r k c o hc hpair := by
    have hlater : ∀ n, Level m pairs isVirtual (d + n) [] [] m' := by
      intro n
      induction n with
      | zero => exact h
      | succ n ih => exact ih.advance
    exact ((hlater k).served r k c hc (by omega)).resolve_left (by simp) o hpair

/-- **Inheritance settles**: when it is over, every open method that a warning comes down to has
taken one of the nearest. -/
theorem settled_inherit (m : Marking) (pairs : List (Nat × Nat)) (isVirtual : Array Bool) :
    Settled m pairs isVirtual (m.inherit (.ofNumbers pairs) isVirtual).value.2 := by
  obtain ⟨⟨d, now, next, hlevel, hwaiting⟩, hdone⟩ :=
    State.run_induction (.ofNumbers pairs) (proceeds_start m pairs isVirtual)
      fun st base r rest h hpop ↦ h.serve hpop
  obtain ⟨rfl, rfl⟩ := List.append_eq_nil_iff.1 (hwaiting.symm.trans hdone)
  exact hlevel.settled

/-! ### Exactness -/

namespace Settled

/-- Where a warning comes down to, one has been taken. -/
theorem exists_took (h : Settled m pairs isVirtual m') (hk : 1 ≤ k)
    (ho : m.Inherits pairs isVirtual r k o) : ∃ r k, Took m pairs isVirtual m' r k o := by
  obtain ⟨k, rfl⟩ := Nat.exists_eq_add_of_le' hk
  obtain ⟨c, hc, hpair, hopen⟩ := ho.exists_base
  refine (h.marks o).resolve_left fun hsame ↦ ?_
  have hclosed := h.served r k c o hc hpair
  rw [isOpen, hsame] at hclosed
  rw [isOpen, hclosed] at hopen
  cases hopen

/-- A warning that was not there before has been taken. -/
theorem took_of_note? (h : Settled m pairs isVirtual m')
    (hfree : (m.note? o).any Note.isConfigured = false) (hr : m'.note? o = some (.warn r)) :
    ∃ k, Took m pairs isVirtual m' r k o := by
  rcases h.marks o with hsame | ⟨r', k, htook⟩
  · have hbefore : m.note? o = some (.warn r) := by
      rwa [Marking.note?, hsame] at hr
    rw [hbefore] at hfree
    cases hfree
  · have heq := htook.note?.symm.trans hr
    cases heq
    exact ⟨k, htook⟩

/-- No method becomes safe, and none ceases to be. -/
theorem safeFlags_eq (h : Settled m pairs isVirtual m') : m'.safeFlags = m.safeFlags := by
  refine Array.ext_getElem? fun i ↦ ?_
  rw [safeFlags, safeFlags, Array.getElem?_map, Array.getElem?_map]
  rcases h.marks i with hsame | ⟨r, k, htook⟩
  · rw [hsame]
  · rw [htook.mark, Option.map_map]
    rfl

end Settled

/-- **Inheritance is exact.** A configured note is kept. Any other method carries a warning
afterwards if and only if one comes down to it, and then it is one of those that come down in the
fewest steps. Where none comes down the note is as before, and no method becomes safe or ceases to
be. -/
theorem inherit_exact (m : Marking) (pairs : List (Nat × Nat)) (isVirtual : Array Bool) :
    let m' := (m.inherit (.ofNumbers pairs) isVirtual).value.2
    (∀ o a, m.note? o = some a → a.isConfigured = true → m'.note? o = some a) ∧
    (∀ o, (m.note? o).any Note.isConfigured = false →
      ((∃ r, m'.note? o = some (.warn r)) ↔ ∃ r k, 1 ≤ k ∧ m.Inherits pairs isVirtual r k o) ∧
      ∀ r, m'.note? o = some (.warn r) → ∃ k, m.Inherits pairs isVirtual r k o ∧
        IsLeast {k | 1 ≤ k ∧ ∃ r, m.Inherits pairs isVirtual r k o} k) ∧
    (∀ o, (∀ r k, 1 ≤ k → ¬ m.Inherits pairs isVirtual r k o) → m'.note? o = m.note? o) ∧
    m'.safeFlags = m.safeFlags := by
  intro m'
  have hsettled : Settled m pairs isVirtual m' := settled_inherit m pairs isVirtual
  refine ⟨?_, ?_, ?_, hsettled.safeFlags_eq⟩
  · intro o a ha hconfigured
    rcases hsettled.marks o with hsame | ⟨r, k, htook⟩
    · rwa [Marking.note?, hsame]
    · have hclosed := isOpen_eq_false_of_note? ha hconfigured
      rw [htook.isOpen] at hclosed
      cases hclosed
  · intro o hfree
    refine ⟨⟨?_, ?_⟩, ?_⟩
    · rintro ⟨r, hr⟩
      obtain ⟨k, htook⟩ := hsettled.took_of_note? hfree hr
      exact ⟨r, k, htook.one_le, htook.nearest.inherits⟩
    · rintro ⟨r, k, hk, ho⟩
      obtain ⟨r', k', htook⟩ := hsettled.exists_took hk ho
      exact ⟨r', htook.note?⟩
    · intro r hr
      obtain ⟨k, htook⟩ := hsettled.took_of_note? hfree hr
      refine ⟨k, htook.nearest.inherits, ⟨htook.one_le, r, htook.nearest.inherits⟩, ?_⟩
      rintro k' ⟨-, r', ho⟩
      exact htook.nearest.le r' k' ho
  · intro o hnone
    rcases hsettled.marks o with hsame | ⟨r, k, htook⟩
    · rw [Marking.note?, hsame, Marking.note?]
    · exact absurd htook.nearest.inherits (hnone r k htook.one_le)

/-- Two warnings come down to one method, the far one through a method without note. The overrides
lead back to where the far one started. -/
def crossing : Marking :=
  ⟨#[{ note := some (.warn ⟨"Trim", "far", .memberTrimming⟩) }, {},
    { note := some (.unanalyzed []) }, { note := some (.warn ⟨"Trim", "near", .memberTrimming⟩) }]⟩

/-- The near warning is taken. -/
theorem inherit_exact_crossing :
    (crossing.inherit (.ofNumbers [(0, 1), (1, 2), (3, 2), (2, 2), (2, 0)])
      #[true, false, false, true]).value.2.note? 2 =
        some (.warn ⟨"Trim", "near", .memberTrimming⟩) := by
  obtain ⟨-, hfree, -, -⟩ := inherit_exact crossing [(0, 1), (1, 2), (3, 2), (2, 2), (2, 0)]
    #[true, false, false, true]
  obtain ⟨hiff, hleast⟩ := hfree 2 (by decide)
  have hissues : crossing.Issues #[true, false, false, true] ⟨"Trim", "near", .memberTrimming⟩ 3 :=
    ⟨rfl, rfl⟩
  have hnear : crossing.Inherits [(0, 1), (1, 2), (3, 2), (2, 2), (2, 0)]
      #[true, false, false, true] ⟨"Trim", "near", .memberTrimming⟩ 1 2 :=
    hissues.inherits.step (by decide) (by decide)
  obtain ⟨r, hr⟩ := hiff.2 ⟨_, 1, le_refl 1, hnear⟩
  obtain ⟨k, hinherits, ⟨hk, -⟩, hmin⟩ := hleast r hr
  have hle := hmin ⟨le_refl 1, _, hnear⟩
  obtain rfl : k = 1 := by omega
  -- in one step nothing but the near warning comes down
  obtain ⟨c, hc, hpair, -⟩ := hinherits.exists_base
  have hnote := hc.issues.note?
  have hbases : c = 1 ∨ c = 3 ∨ c = 2 := by
    simpa using hpair
  rcases hbases with rfl | rfl | rfl
  · cases hnote
  · rw [hr, ← hnote]
    rfl
  · cases hnote

end Inheritance

end HazardTrace

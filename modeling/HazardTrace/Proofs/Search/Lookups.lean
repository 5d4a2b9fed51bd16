import HazardTrace.Proofs.Search.Exactness

/-!
# Lookups of a search

A search looks methods up by their numbers: in the graph, for their flags, their callers and their
harmless callers, and in its own table of visits. A lookup outside an array answers with a default,
so a number that is out of bounds would pass unnoticed. `searchChecked` is the search with a check
before every lookup, which fails at the first number that is out of bounds. It never does
(`searchChecked_eq`), in any graph and from any start.

The checked search is written along the search itself, function by function, and it ends for the
same reason: where the checks pass, one step does what a step of the search does
(`expand_of_expandChecked`), so the same weight falls.

That the checks pass is an invariant of the search.

* A caller is a node of the graph (`lt_of_mem_callers`), which a graph carries with it. So all
  callers of a node pass (`meetAllChecked_eq`), as long as the table of visits has the size of the
  graph.
* Whatever waits has been visited, and a visit stands in the table, which has that size in every
  state of a search (`Sound.indexes`).

With `Sound` carried along, one expansion passes (`Sound.expandChecked_eq`), and so does a run
(`Sound.runChecked_eq`). The start is checked by the search itself, before anything is looked up.
-/

namespace HazardTrace

open CallGraph

namespace Search

namespace State

variable {g : CallGraph} {o : Options} {s u d : Nat} {st st' : State} {vs : List Nat}

/-- The number can be looked up in the graph and in the table of visits. -/
def Indexes (g : CallGraph) (st : State) (v : Nat) : Prop :=
  v < g.size ∧ v < st.visits.size

instance (g : CallGraph) (st : State) (v : Nat) : Decidable (Indexes g st v) :=
  inferInstanceAs (Decidable (_ ∧ _))

/-- As `meetAll`, but each caller is checked before it is looked up. -/
def meetAllChecked (g : CallGraph) (o : Options) (u d : Nat) : List Nat → State → Option State
  | [], st => some st
  | v :: vs, st =>
    if Indexes g st v then
      let st := st.meet g o u d v
      if st.isFull o then some st else meetAllChecked g o u d vs st
    else none

/-- As `expand`, but the node and each of its callers are checked before they are looked up. -/
def expandChecked (g : CallGraph) (o : Options) (start : Nat) (st : State) (u : Nat) :
    Option State :=
  if Indexes g st u then
    if (u != start && g.isVirtual u) || g.isSafe u then some st
    else st.meetAllChecked g o u (st.distance u + 1) (g.callers u)
  else none

/-- Callers that pass the checks are met as without checks. -/
theorem meetAll_of_meetAllChecked (h : meetAllChecked g o u d vs st = some st') :
    meetAll g o u d vs st = st' := by
  induction vs generalizing st with
  | nil => exact Option.some.inj h
  | cons v vs ih =>
    unfold meetAllChecked at h
    unfold meetAll
    split at h
    · dsimp only at h ⊢
      split at h
      next hfull => rw [if_pos hfull, Option.some.inj h]
      next hfull => rw [if_neg hfull, ih h]
    · cases h

/-- A node that passes the checks is expanded as without checks. -/
theorem expand_of_expandChecked (h : expandChecked g o s st u = some st') :
    st.expand g o s u = st' := by
  unfold expandChecked at h
  unfold expand
  split at h
  · split at h
    next hclosed => rw [if_pos hclosed, Option.some.inj h]
    next hclosed => rw [if_neg hclosed, meetAll_of_meetAllChecked h]
  · cases h

/-- As `run`, but every number is checked before it is looked up. -/
def runChecked (g : CallGraph) (o : Options) (start : Nat) (st : State) : Option State :=
  match _h : st.waiting.pop? with
  | none => some st
  | some (u, rest) =>
    match _hnext : expandChecked g o start { st with waiting := rest } u with
    | none => none
    | some next => if next.isFull o then some next else next.runChecked g o start
termination_by st.weight
decreasing_by
  rw [← expand_of_expandChecked _hnext]
  exact weight_expand_pop_lt _h

/-! ### The checks pass -/

/-- The callers of a node pass, one after the other. -/
theorem meetAllChecked_eq (hsize : st.visits.size = g.size) (hvs : ∀ v ∈ vs, v < g.size) :
    meetAllChecked g o u d vs st = some (meetAll g o u d vs st) := by
  induction vs generalizing st with
  | nil => rfl
  | cons v vs ih =>
    obtain ⟨hv, hvs⟩ := List.forall_mem_cons.1 hvs
    unfold meetAllChecked meetAll
    rw [if_pos ⟨hv, hsize ▸ hv⟩]
    dsimp only
    split
    · rfl
    · exact ih (size_visits_meet.trans hsize) hvs

/-- A node that has been visited can be looked up. -/
theorem Sound.indexes {x : Visit} (h : Sound g o s st) (hu : st.visit? u = some x) :
    Indexes g st u := by
  have hlt := (Array.getElem?_eq_some_iff.1 (Option.join_eq_some_iff.1 hu)).1
  exact ⟨h.size_visits ▸ hlt, hlt⟩

/-- An expansion looks nothing up that is out of bounds. -/
theorem Sound.expandChecked_eq {x : Visit} (h : Sound g o s st) (hu : st.visit? u = some x) :
    expandChecked g o s st u = some (st.expand g o s u) := by
  unfold expandChecked State.expand
  rw [if_pos (h.indexes hu)]
  split
  · rfl
  · exact meetAllChecked_eq h.size_visits fun v hv ↦ lt_of_mem_callers hv

theorem runChecked_of_pop?_eq_none (h : st.waiting.pop? = none) :
    st.runChecked g o s = some st := by
  rw [runChecked]
  split
  · rfl
  next h' =>
    rw [h] at h'
    cases h'

theorem runChecked_of_pop?_eq_some {rest : Worklist Nat}
    (h : st.waiting.pop? = some (u, rest))
    (hnext : expandChecked g o s { st with waiting := rest } u = some st') :
    st.runChecked g o s = if st'.isFull o then some st' else st'.runChecked g o s := by
  rw [runChecked]
  split
  next h' =>
    rw [h] at h'
    cases h'
  next h' =>
    rw [h] at h'
    cases h'
    split
    next hnone =>
      rw [hnext] at hnone
      cases hnone
    next hsome =>
      rw [hnext] at hsome
      cases hsome
      rfl

/-- **A run looks nothing up that is out of bounds.** -/
theorem Sound.runChecked_eq (h : Sound g o s st) : st.runChecked g o s = some (st.run g o s) := by
  induction st using run.induct g o s with
  | case1 st hpop => rw [runChecked_of_pop?_eq_none hpop, run_of_pop?_eq_none hpop]
  | case2 st u rest hpop next hfull =>
    obtain ⟨⟨x, hx⟩, -⟩ := h.of_pop? hpop
    have hnext := (h.pop hpop).expandChecked_eq hx
    rw [runChecked_of_pop?_eq_some hpop hnext, run_of_pop?_eq_some hpop, if_pos hfull, if_pos hfull]
  | case3 st u rest hpop next hfull ih =>
    obtain ⟨⟨x, hx⟩, hwaits⟩ := h.of_pop? hpop
    have hnext := (h.pop hpop).expandChecked_eq hx
    rw [runChecked_of_pop?_eq_some hpop hnext, run_of_pop?_eq_some hpop, if_neg hfull, if_neg hfull]
    exact ih ((h.pop hpop).expand ⟨x, hx⟩ hwaits)

end State

end Search

namespace CallGraph

open Search

/-- As `search`, but every number is checked before it is looked up. The search checks its start
itself. -/
def searchChecked (g : CallGraph) (o : Options) (start : Nat) : Option Result :=
  g.settled? start <|> ((State.initial g start).runChecked g o start).map (.ofState start)

/-- **A search looks nothing up that is out of bounds**, in any graph and from any start. -/
theorem searchChecked_eq (g : CallGraph) (o : Options) (start : Nat) :
    g.searchChecked o start = some (g.search o start) := by
  rw [searchChecked, search]
  cases hsettled : g.settled? start with
  | some r => rfl
  | none =>
    have hs := (settled?_eq_none_iff.1 hsettled).1
    rw [(State.sound_initial hs).runChecked_eq]
    rfl

end CallGraph

end HazardTrace

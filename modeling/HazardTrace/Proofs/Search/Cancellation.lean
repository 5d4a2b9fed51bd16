import HazardTrace.Proofs.Search.Paths

/-!
# Searches under a token

A search under a token does what a search does, and before each node that it expands it reads the
token. `Reads` says which readings there are, step by step: a reading follows another one if that
one finds the token at rest, and something still waits to be expanded afterwards. What the token
would have answered at any other time does not matter, so the statements speak of the readings that
take place.

* `runUnder_eq_none_or`: a run under a token is given up or ends in the state in which it ends
  without one. There is no third possibility, such as a state that the search was in when it was
  given up.
* `runUnder_eq_none_iff`: it is given up if and only if one of its readings finds the token fired
  (`Meets`).

Both are by induction along the run. One step of it is `runUnder_of_pop?_eq_some` on the side of the
search and `meets_iff_of_pop?_eq_some` on the side of the readings, and the two have the same shape:
the token has fired, or it has not and the next state goes on.

From runs they are carried to searches (`searchUnder_eq_none_or`, `searchUnder_eq_none_iff`). A
start outside the graph and an entry are settled without a reading, so such a search has its result
whatever the token does (`searchUnder_of_settled`). Under a token that stays at rest all searches
have their results (`value_searchAll_quiet`), which is how the modules on whole runs use this one.
-/

namespace HazardTrace

namespace Search

namespace State

variable {g : CallGraph} {o : Options} {s u k : Nat} {fired : Nat → Bool} {st : State}
  {rest : Worklist Nat}

/-- A search that has `st` before its reading `k` of the token comes to its reading `k'`, with
`st'`. -/
inductive Reads (g : CallGraph) (o : Options) (s : Nat) (fired : Nat → Bool) :
    Nat → State → Nat → State → Prop
  | here {k : Nat} {st : State} (hwaits : st.waiting.pop? ≠ none) : Reads g o s fired k st k st
  | next {k k' u : Nat} {st next st' : State} {rest : Worklist Nat} (hquiet : fired k = false)
      (hpop : st.waiting.pop? = some (u, rest))
      (hnext : ({ st with waiting := rest } : State).expand g o s u = next)
      (hfull : next.isFull o = false) (h : Reads g o s fired (k + 1) next k' st') :
      Reads g o s fired k st k' st'

theorem runUnder_of_pop?_eq_none (h : st.waiting.pop? = none) :
    st.runUnder g o s fired k = some st := by
  rw [runUnder]
  split
  · rfl
  next h' =>
    rw [h] at h'
    cases h'

/-- One step under a token: a reading, and then a step of the search. -/
theorem runUnder_of_pop?_eq_some (h : st.waiting.pop? = some (u, rest)) :
    st.runUnder g o s fired k =
      if fired k then none
      else if (({ st with waiting := rest } : State).expand g o s u).isFull o
      then some (({ st with waiting := rest } : State).expand g o s u)
      else (({ st with waiting := rest } : State).expand g o s u).runUnder g o s fired (k + 1) := by
  rw [runUnder]
  split
  next h' =>
    rw [h] at h'
    cases h'
  next h' =>
    rw [h] at h'
    cases h'
    rfl

/-- **A search under a token is given up or ends as it would without one.** -/
theorem runUnder_eq_none_or (g : CallGraph) (o : Options) (s k : Nat) (fired : Nat → Bool)
    (st : State) :
    st.runUnder g o s fired k = none ∨ st.runUnder g o s fired k = some (st.run g o s) := by
  induction st using run.induct g o s generalizing k with
  | case1 st hpop => exact .inr (by rw [runUnder_of_pop?_eq_none hpop, run_of_pop?_eq_none hpop])
  | case2 st u rest hpop next hfull =>
    rw [runUnder_of_pop?_eq_some hpop, run_of_pop?_eq_some hpop, if_pos hfull, if_pos hfull]
    cases fired k
    · exact .inr rfl
    · exact .inl rfl
  | case3 st u rest hpop next hfull ih =>
    rw [runUnder_of_pop?_eq_some hpop, run_of_pop?_eq_some hpop, if_neg hfull, if_neg hfull]
    cases fired k
    · exact ih (k + 1)
    · exact .inl rfl

/-- Some reading of the search, from reading `k` on, finds the token fired. -/
def Meets (g : CallGraph) (o : Options) (s : Nat) (fired : Nat → Bool) (k : Nat) (st : State) :
    Prop :=
  ∃ k' st', Reads g o s fired k st k' st' ∧ fired k' = true

theorem not_meets_of_pop?_eq_none (h : st.waiting.pop? = none) : ¬ Meets g o s fired k st := by
  rintro ⟨k', st', hreads, -⟩
  cases hreads with
  | here hwaits => exact hwaits h
  | next _ hpop =>
    rw [h] at hpop
    cases hpop

/-- The readings that are still to come begin with this one, and the others are those of the next
state. -/
theorem meets_iff_of_pop?_eq_some (h : st.waiting.pop? = some (u, rest)) :
    Meets g o s fired k st ↔ fired k = true ∨
      (({ st with waiting := rest } : State).expand g o s u).isFull o = false ∧
        Meets g o s fired (k + 1) (({ st with waiting := rest } : State).expand g o s u) := by
  constructor
  · rintro ⟨k', st', hreads, hfired⟩
    cases hreads with
    | here => exact .inl hfired
    | next _ hpop hnext hfull hreads =>
      obtain ⟨rfl, rfl⟩ := Prod.mk.inj (Option.some.inj (h.symm.trans hpop))
      rw [hnext]
      exact .inr ⟨hfull, k', st', hreads, hfired⟩
  · intro hmeets
    cases hquiet : fired k with
    | true => exact ⟨k, st, .here (by rw [h]; exact Option.some_ne_none _), hquiet⟩
    | false =>
      rcases hmeets with hfired | ⟨hfull, k', st', hreads, hfired⟩
      · rw [hquiet] at hfired
        cases hfired
      · exact ⟨k', st', .next hquiet h rfl hfull hreads, hfired⟩

/-- **A search is given up if and only if it reads a token that has fired.** -/
theorem runUnder_eq_none_iff (g : CallGraph) (o : Options) (s k : Nat) (fired : Nat → Bool)
    (st : State) : st.runUnder g o s fired k = none ↔ Meets g o s fired k st := by
  induction st using run.induct g o s generalizing k with
  | case1 st hpop =>
    rw [runUnder_of_pop?_eq_none hpop]
    exact iff_of_false (Option.some_ne_none _) (not_meets_of_pop?_eq_none hpop)
  | case2 st u rest hpop next hfull =>
    rw [runUnder_of_pop?_eq_some hpop, meets_iff_of_pop?_eq_some hpop, if_pos hfull, hfull]
    cases fired k with
    | true => exact iff_of_true rfl (.inl rfl)
    | false => exact iff_of_false (Option.some_ne_none _) (by simp)
  | case3 st u rest hpop next hfull ih =>
    rw [runUnder_of_pop?_eq_some hpop, meets_iff_of_pop?_eq_some hpop, if_neg hfull, ← ih (k + 1)]
    cases fired k with
    | true => exact iff_of_true rfl (.inl rfl)
    | false =>
      have hfull' : next.isFull o = false := Bool.of_not_eq_true hfull
      exact ((or_iff_right Bool.false_ne_true).trans (and_iff_right hfull')).symm

end State

end Search

namespace CallGraph

open Search

/-- The search from `s` comes to its reading `k` of the token. A start outside the graph and an
entry are settled without a reading. -/
def Checks (g : CallGraph) (o : Options) (fired : Nat → Bool) (s k : Nat) : Prop :=
  (s < g.size ∧ g.isEntry s = false) ∧ ∃ st, State.Reads g o s fired 0 (.initial g s) k st

variable {g : CallGraph} {s : Nat}

/-- A search that is settled at its start reads no token. -/
theorem searchUnder_of_settled (h : g.settled? s ≠ none) (o : Options) (fired : Nat → Bool) :
    g.searchUnder o fired s = some (g.search o s) := by
  obtain ⟨r, hr⟩ := Option.ne_none_iff_exists'.1 h
  rw [searchUnder, search, hr]
  rfl

theorem searchUnder_of_settled?_eq_none (h : g.settled? s = none) (o : Options)
    (fired : Nat → Bool) :
    g.searchUnder o fired s =
      ((State.initial g s).runUnder g o s fired 0).map (Result.ofState s) := by
  rw [searchUnder, h]
  rfl

variable (g : CallGraph) (o : Options) (fired : Nat → Bool) (s : Nat)

/-- **A search under a token has no result or that of the search without one.** -/
theorem searchUnder_eq_none_or :
    g.searchUnder o fired s = none ∨ g.searchUnder o fired s = some (g.search o s) := by
  by_cases hsettled : g.settled? s = none
  · have hsearch : g.search o s = .ofState s ((State.initial g s).run g o s) := by
      rw [search, hsettled]
      rfl
    rw [searchUnder_of_settled?_eq_none hsettled, hsearch]
    rcases State.runUnder_eq_none_or g o s 0 fired (.initial g s) with hrun | hrun
    · exact .inl (by rw [hrun]; rfl)
    · exact .inr (by rw [hrun]; rfl)
  · exact .inr (searchUnder_of_settled hsettled o fired)

/-- **A search has no result if and only if one of its readings finds the token fired.** -/
theorem searchUnder_eq_none_iff :
    g.searchUnder o fired s = none ↔ ∃ k, g.Checks o fired s k ∧ fired k = true := by
  by_cases hsettled : g.settled? s = none
  · rw [searchUnder_of_settled?_eq_none hsettled, Option.map_eq_none_iff,
      State.runUnder_eq_none_iff]
    have hstart := settled?_eq_none_iff.1 hsettled
    constructor
    · rintro ⟨k, st, hreads, hfired⟩
      exact ⟨k, ⟨hstart, st, hreads⟩, hfired⟩
    · rintro ⟨k, ⟨-, st, hreads⟩, hfired⟩
      exact ⟨k, st, hreads, hfired⟩
  · rw [searchUnder_of_settled hsettled]
    refine iff_of_false (Option.some_ne_none _) ?_
    rintro ⟨k, ⟨hstart, -⟩, -⟩
    exact hsettled (settled?_eq_none_iff.2 hstart)

/-- A search that reads no fired token has its result. -/
theorem searchUnder_eq_search (h : ∀ k, g.Checks o fired s k → fired k = false) :
    g.searchUnder o fired s = some (g.search o s) := by
  refine (g.searchUnder_eq_none_or o fired s).resolve_left fun hnone ↦ ?_
  obtain ⟨k, hchecks, hfired⟩ := (g.searchUnder_eq_none_iff o fired s).1 hnone
  rw [h k hchecks] at hfired
  cases hfired

theorem searchUnder_quiet : g.searchUnder o (fun _ ↦ false) s = some (g.search o s) :=
  g.searchUnder_eq_search o _ s fun _ _ ↦ rfl

/-- Under a token at rest there is one result for each hazard, in order. -/
theorem value_searchAll_quiet : (g.searchAll o false).value = g.hazards.map (g.search o) := by
  simp [searchAll, searchUnder_quiet]

theorem nodup_hazards : g.hazards.Nodup :=
  List.nodup_range.filter _

end CallGraph

end HazardTrace

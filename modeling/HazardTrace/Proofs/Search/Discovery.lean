import HazardTrace.Proofs.Search.Walk

/-!
# What a search discovers

A search changes its state in one way only: an undiscovered caller is entered in the table of visits
and then becomes a destination, waits, or is dropped. Everything about searches is derived from that
one move.

* `meetAll_induction` and `run_induction` reduce every invariant of a search to the move: what each
  discovery keeps, and each node that is expanded, holds after the run.
* The frame lemmas say what the move touches. A discovery adds one visit and leaves all others
  (`visit?_discover`), so a visit is final (`visit?_discover_of_visit?`). Entering a node does not
  touch the visits (`visits_enter`), and `enter_cases` lists all that can become of it.

`Sound` is the invariant that holds under **all** options, capped or not: each visit but the start's
was made from an earlier one, over a call that the search follows, out of a method that it expands;
what waits and what was found has been visited. A single discovery preserves it
(`Sound.discover_enter`), hence the callers of a node, an expansion and a run (`Sound.run`).

Other invariants need to know that the search is sound where they are used.
`Sound.meetAll_induction` is the induction principle for them: it carries `Sound` and the visit of
the node that is being expanded along, and leaves one step to prove. The lower bound on distances,
and that nothing is missed, are proved in this way (`Exactness`), and so is the order of
destinations under a cap (`Cap`).
-/

namespace HazardTrace

open CallGraph

namespace Search

namespace State

variable {g : CallGraph} {o : Options} {s u d v w : Nat} {st : State} {vs : List Nat}

/-- How a node was discovered; `none` if it was not. -/
def visit? (st : State) (v : Nat) : Option Visit :=
  st.visits[v]?.join

theorem visit?_eq_none_of_fresh (h : st.visits[v]? = some none) : st.visit? v = none := by
  simp [visit?, h]

/-- A node of the graph is discovered or fresh. -/
theorem fresh_of_visit?_eq_none (hv : v < st.visits.size) (h : st.visit? v = none) :
    st.visits[v]? = some none := by
  unfold visit? at h
  rw [Array.getElem?_eq_getElem hv] at h ⊢
  rw [Option.join_some] at h
  rw [h]

/-- The distance of a discovered node stands in its visit. -/
theorem distance_of_visit? {x : Visit} (h : st.visit? v = some x) : st.distance v = x.distance := by
  unfold visit? at h
  simp [distance, h]

/-! ### The frame of a discovery -/

@[simp]
theorem visits_enter (g : CallGraph) (o : Options) (st : State) (v : Nat) :
    (st.enter g o v).visits = st.visits := by
  unfold enter
  repeat' split
  all_goals rfl

@[simp]
theorem visit?_enter (g : CallGraph) (o : Options) (st : State) (v w : Nat) :
    (st.enter g o v).visit? w = st.visit? w := by
  simp [visit?]

/-- A discovery adds one visit. -/
theorem visit?_discover (h : st.visits[v]? = some none) (u d w : Nat) :
    (st.discover u d v).visit? w = if w = v then some ⟨u, d⟩ else st.visit? w := by
  obtain ⟨hlt, -⟩ := Array.getElem?_eq_some_iff.1 h
  unfold visit? discover
  rw [Array.getElem?_setIfInBounds]
  by_cases hw : w = v
  · subst hw
    simp [hlt]
  · simp [hw, Ne.symm hw]

/-- A visit is final. -/
theorem visit?_discover_of_visit? {x : Visit} (h : st.visits[v]? = some none)
    (hw : st.visit? w = some x) (u d : Nat) : (st.discover u d v).visit? w = some x := by
  rw [visit?_discover h, if_neg, hw]
  rintro rfl
  rw [visit?_eq_none_of_fresh h] at hw
  cases hw

/-- **All that can become of a discovered node.** -/
theorem enter_cases (g : CallGraph) (o : Options) (st : State) (v : Nat) :
    (g.Waits o v ∧ st.enter g o v = { st with waiting := st.waiting.push v }) ∨
    (g.IsDestination v ∧ st.enter g o v = { st with found := st.found.push v }) ∨
    (¬ g.Waits o v ∧ ¬ g.IsDestination v ∧ st.enter g o v = st) := by
  unfold enter
  cases hsafe : g.isSafe v with
  | true =>
    refine .inr (.inr ⟨fun h ↦ ?_, fun h ↦ ?_, by simp⟩)
    · simpa [hsafe] using h.not_safe
    · simpa [hsafe] using h.not_safe
  | false =>
    cases hentry : g.isEntry v with
    | true => exact .inr (.inl ⟨⟨hentry, hsafe⟩, by simp⟩)
    | false =>
      by_cases hhazard : o.excludeInteriorSources = true ∧ g.isHazard v = true
      · refine .inr (.inr ⟨fun h ↦ ?_, fun h ↦ ?_, by simp [hhazard]⟩)
        · simpa [hhazard.2] using h.not_hazard hhazard.1
        · simpa [hentry] using h.isEntry
      · refine .inl ⟨⟨hsafe, hentry, fun hex ↦ ?_⟩, ?_⟩
        · simpa [hex] using hhazard
        · rw [if_neg (by simp), if_neg (by simp), if_neg (by simpa using hhazard)]

/-! ### Every invariant is about one move -/

/-- What holds before the callers of `u` are met, and is kept by each discovery, holds after. -/
theorem meetAll_induction {P : State → Prop} (hst : P st)
    (step : ∀ st v, v ∈ vs → P st → st.visits[v]? = some none → g.isSafeEdge u v = false →
      P ((st.discover u d v).enter g o v)) :
    P (meetAll g o u d vs st) := by
  -- a caller that has been visited, or is called harmlessly, changes nothing
  induction vs generalizing st with
  | nil => exact hst
  | cons v vs ih =>
    have hmeet : P (st.meet g o u d v) := by
      unfold meet
      split
      next hfresh =>
        by_cases hsafe : g.isSafeEdge u v = true
        · rwa [if_pos hsafe]
        · rw [if_neg hsafe]
          exact step st v (by simp) hst hfresh (by simpa using hsafe)
      · exact hst
    unfold meetAll
    dsimp only
    split
    · exact hmeet
    · exact ih hmeet fun st v hv ↦ step st v (List.mem_cons_of_mem _ hv)

theorem run_of_pop?_eq_none (h : st.waiting.pop? = none) : st.run g o s = st := by
  rw [run]
  split
  · rfl
  next h' =>
    rw [h] at h'
    cases h'

/-- A run expands the next node and goes on, unless it is full then. -/
theorem run_of_pop?_eq_some {rest : Worklist Nat} (h : st.waiting.pop? = some (u, rest)) :
    st.run g o s =
      if (({ st with waiting := rest } : State).expand g o s u).isFull o
      then ({ st with waiting := rest } : State).expand g o s u
      else (({ st with waiting := rest } : State).expand g o s u).run g o s := by
  rw [run]
  split
  next h' =>
    rw [h] at h'
    cases h'
  next h' =>
    rw [h] at h'
    cases h'
    rfl

/-- What holds before a search, and is kept by each node that is expanded, holds after. -/
theorem run_induction {P : State → Prop} (hst : P st)
    (step : ∀ st u rest, P st → st.waiting.pop? = some (u, rest) →
      P (({ st with waiting := rest } : State).expand g o s u)) :
    P (st.run g o s) := by
  induction st using run.induct g o s with
  | case1 st hpop => rwa [run_of_pop?_eq_none hpop]
  | case2 st u rest hpop next hfull =>
    rw [run_of_pop?_eq_some hpop, if_pos hfull]
    exact step st u rest hst hpop
  | case3 st u rest hpop next hfull ih =>
    rw [run_of_pop?_eq_some hpop, if_neg hfull]
    exact ih (step st u rest hst hpop)

/-! ### Soundness of the visits -/

/-- Every visit but that of the start goes back to an earlier one; what waits and what was found has
been visited. -/
structure Sound (g : CallGraph) (o : Options) (s : Nat) (st : State) : Prop where
  size_visits : st.visits.size = g.size
  visit_start : st.visit? s = some ⟨s, 0⟩
  visit_via : ∀ v x, st.visit? v = some x → v ≠ s →
    ∃ y, st.visit? x.via = some y ∧ x.distance = y.distance + 1 ∧ g.Expands o s x.via ∧
      g.Follows x.via v
  waiting : ∀ w ∈ st.waiting.toList, (∃ x, st.visit? w = some x) ∧ (w ≠ s → g.Waits o w)
  found : ∀ w ∈ st.found.toList, (∃ x, st.visit? w = some x) ∧ w ≠ s ∧ g.IsDestination w
  nodup_found : st.found.toList.Nodup

/-- At first only the start has been visited, and it waits. -/
theorem sound_initial (hs : s < g.size) : Sound g o s (initial g s) where
  size_visits := by simp [initial]
  visit_start := by simp [initial, visit?, hs]
  visit_via v x hv hne := by
    have hnone : (initial g s).visit? v = none := by
      simp only [initial, visit?, Array.getElem?_setIfInBounds_ne (Ne.symm hne),
        Array.getElem?_replicate]
      split <;> rfl
    rw [hnone] at hv
    cases hv
  waiting w hw := by
    obtain rfl : w = s := by simpa [initial] using hw
    exact ⟨⟨⟨w, 0⟩, by simp [initial, visit?, hs]⟩, fun hne ↦ absurd rfl hne⟩
  found w hw := by simp [initial] at hw
  nodup_found := by simp [initial]

/-- The start has been visited from the beginning. -/
theorem Sound.ne_start_of_fresh (h : Sound g o s st) (hfresh : st.visits[v]? = some none) :
    v ≠ s := by
  rintro rfl
  have hstart := h.visit_start
  rw [visit?_eq_none_of_fresh hfresh] at hstart
  cases hstart

/-- Noting a discovery keeps `Sound`. -/
theorem Sound.discover {x : Visit} (h : Sound g o s st) (hfresh : st.visits[v]? = some none)
    (hu : st.visit? u = some x) (hexp : g.Expands o s u) (huv : g.Follows u v) :
    Sound g o s (st.discover u (x.distance + 1) v) where
  size_visits := by simp [State.discover, h.size_visits]
  visit_start := visit?_discover_of_visit? hfresh h.visit_start ..
  visit_via w y hw hws := by
    by_cases hwv : w = v
    · subst hwv
      rw [visit?_discover hfresh, if_pos rfl] at hw
      obtain rfl := Option.some.inj hw
      exact ⟨x, visit?_discover_of_visit? hfresh hu .., rfl, hexp, huv⟩
    · rw [visit?_discover hfresh, if_neg hwv] at hw
      obtain ⟨z, hz, hrest⟩ := h.visit_via w y hw hws
      exact ⟨z, visit?_discover_of_visit? hfresh hz .., hrest⟩
  waiting w hw := by
    obtain ⟨⟨y, hy⟩, hwaits⟩ := h.waiting w hw
    exact ⟨⟨y, visit?_discover_of_visit? hfresh hy ..⟩, hwaits⟩
  found w hw := by
    obtain ⟨⟨y, hy⟩, hrest⟩ := h.found w hw
    exact ⟨⟨y, visit?_discover_of_visit? hfresh hy ..⟩, hrest⟩
  nodup_found := h.nodup_found

/-- Entering a node that has just been visited keeps `Sound`. -/
theorem Sound.enter {x : Visit} (h : Sound g o s st) (hv : st.visit? v = some x) (hvs : v ≠ s)
    (hnew : v ∉ st.found.toList) : Sound g o s (st.enter g o v) := by
  rcases enter_cases g o st v with ⟨hwaits, heq⟩ | ⟨hdest, heq⟩ | ⟨-, -, heq⟩
  · rw [heq]
    refine { h with waiting := fun w hw ↦ ?_ }
    rw [Worklist.toList_push, List.mem_append, List.mem_singleton] at hw
    rcases hw with hw | rfl
    · exact h.waiting w hw
    · exact ⟨⟨x, hv⟩, fun _ ↦ hwaits⟩
  · rw [heq]
    refine { h with found := fun w hw ↦ ?_, nodup_found := ?_ }
    · rw [Array.toList_push, List.mem_append, List.mem_singleton] at hw
      rcases hw with hw | rfl
      · exact h.found w hw
      · exact ⟨⟨x, hv⟩, hvs, hdest⟩
    · rw [Array.toList_push]
      refine List.nodup_append.2 ⟨h.nodup_found, by simp, ?_⟩
      rintro a ha b hb rfl
      exact hnew (List.mem_singleton.1 hb ▸ ha)
  · rwa [heq]

/-- A discovery, from noting it to entering the node, keeps `Sound`. -/
theorem Sound.discover_enter {x : Visit} (h : Sound g o s st) (hfresh : st.visits[v]? = some none)
    (hu : st.visit? u = some x) (hexp : g.Expands o s u) (huv : g.Follows u v) :
    Sound g o s ((st.discover u (x.distance + 1) v).enter g o v) := by
  refine (h.discover hfresh hu hexp huv).enter (x := ⟨u, x.distance + 1⟩) ?_
    (h.ne_start_of_fresh hfresh) ?_
  · rw [visit?_discover hfresh, if_pos rfl]
  · intro hmem
    obtain ⟨⟨y, hy⟩, -⟩ := h.found v hmem
    rw [visit?_eq_none_of_fresh hfresh] at hy
    cases hy

/-- `meetAll_induction` for a sound search: `Sound` and the visit of `u` hold throughout, so an
invariant may use them. -/
theorem Sound.meetAll_induction {P : State → Prop} {x : Visit} (h : Sound g o s st)
    (hu : st.visit? u = some x) (hexp : g.Expands o s u) (hvs : ∀ v ∈ vs, v ∈ g.callers u)
    (hst : P st)
    (step : ∀ st v, Sound g o s st → st.visit? u = some x → P st → st.visits[v]? = some none →
      g.Follows u v → P ((st.discover u (x.distance + 1) v).enter g o v)) :
    Sound g o s (meetAll g o u (x.distance + 1) vs st) ∧
      (meetAll g o u (x.distance + 1) vs st).visit? u = some x ∧
      P (meetAll g o u (x.distance + 1) vs st) := by
  refine State.meetAll_induction
    (P := fun st ↦ Sound g o s st ∧ st.visit? u = some x ∧ P st) ⟨h, hu, hst⟩ ?_
  rintro st v hv ⟨h, hu, hst⟩ hfresh hsafe
  have huv : g.Follows u v := ⟨hvs v hv, hsafe⟩
  refine ⟨h.discover_enter hfresh hu hexp huv, ?_, step st v h hu hst hfresh huv⟩
  rw [visit?_enter, visit?_discover_of_visit? hfresh hu]

/-- Taking the next node off the queue keeps `Sound`. -/
theorem Sound.pop {rest : Worklist Nat} (h : Sound g o s st)
    (hpop : st.waiting.pop? = some (u, rest)) : Sound g o s { st with waiting := rest } :=
  { h with waiting := fun w hw ↦
      h.waiting w (by rw [Worklist.toList_of_pop? hpop]; exact List.mem_cons_of_mem _ hw) }

/-- What is expanded when its turn comes: a virtual method other than the start is passed over. -/
theorem expands_of_waits (hwaits : u ≠ s → g.Waits o u)
    (hopen : ¬ ((u != s && g.isVirtual u) || g.isSafe u) = true) : g.Expands o s u := by
  simp only [Bool.or_eq_true, Bool.and_eq_true, bne_iff_ne, not_or, not_and,
    Bool.not_eq_true] at hopen
  refine ⟨hopen.2, fun hne ↦ ?_⟩
  exact ⟨hopen.2, (hwaits hne).not_entry, hopen.1 hne, (hwaits hne).not_hazard⟩

/-- Expanding a node keeps `Sound`. -/
theorem Sound.expand (h : Sound g o s st) (hu : ∃ x, st.visit? u = some x)
    (hwaits : u ≠ s → g.Waits o u) : Sound g o s (st.expand g o s u) := by
  obtain ⟨x, hx⟩ := hu
  unfold State.expand
  split
  · exact h
  next hopen =>
    rw [distance_of_visit? hx]
    exact (h.meetAll_induction (P := fun _ ↦ True) hx (expands_of_waits hwaits hopen)
      (fun v hv ↦ hv) trivial fun _ _ _ _ _ _ _ ↦ trivial).1

/-- The node at the head of the queue has been visited. -/
theorem Sound.of_pop? {rest : Worklist Nat} (h : Sound g o s st)
    (hpop : st.waiting.pop? = some (u, rest)) :
    (∃ x, st.visit? u = some x) ∧ (u ≠ s → g.Waits o u) := by
  refine h.waiting u ?_
  rw [Worklist.toList_of_pop? hpop]
  exact List.mem_cons_self ..

/-- **A search is sound**, whatever its options. -/
theorem Sound.run (h : Sound g o s st) : Sound g o s (st.run g o s) := by
  refine run_induction h ?_
  intro st u rest h hpop
  obtain ⟨hu, hwaits⟩ := h.of_pop? hpop
  exact (h.pop hpop).expand hu hwaits

end State

end Search

end HazardTrace
